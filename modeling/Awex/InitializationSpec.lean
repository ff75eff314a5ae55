import Awex.Initialization
import Awex.Library.Levels
import Mathlib.Data.Finset.Dedup
import Mathlib.Data.List.Infix
import Mathlib.Data.Option.Basic

namespace Awex

/-- Whatever the first says, the second says too. -/
structure InitVars.Le (v w : InitVars) : Prop where
  inferWorldSize : ∀ x, v.inferWorldSize = some x → w.inferWorldSize = some x
  numInferEngines : ∀ x, v.numInferEngines = some x → w.numInferEngines = some x
  inferParams : ∀ x, v.inferParams = some x → w.inferParams = some x
  trainParams : ∀ x, v.trainParams = some x → w.trainParams = some x
  transferPlan : ∀ x, v.transferPlan = some x → w.transferPlan = some x
  masterInfo : ∀ x, v.masterInfo = some x → w.masterInfo = some x
  recvTensor : ∀ x, v.recvTensor = some x → w.recvTensor = some x

namespace InitVars

def fill (v g : InitVars) : InitVars where
  inferWorldSize := g.inferWorldSize.or v.inferWorldSize
  numInferEngines := g.numInferEngines.or v.numInferEngines
  inferParams := g.inferParams.or v.inferParams
  trainParams := g.trainParams.or v.trainParams
  transferPlan := g.transferPlan.or v.transferPlan
  masterInfo := g.masterInfo.or v.masterInfo
  recvTensor := g.recvTensor.or v.recvTensor

@[simp] theorem fill_empty (v : InitVars) : v.fill .empty = v := rfl

theorem empty_le (v : InitVars) : InitVars.empty.Le v := by
  constructor
  all_goals
    intro x hx
    cases hx

theorem Le.refl (v : InitVars) : v.Le v := by
  constructor
  all_goals exact fun _ hx => hx

theorem Le.trans {u v w : InitVars} (huv : u.Le v) (hvw : v.Le w) : u.Le w := by
  constructor
  · exact fun x hx => hvw.inferWorldSize x (huv.inferWorldSize x hx)
  · exact fun x hx => hvw.numInferEngines x (huv.numInferEngines x hx)
  · exact fun x hx => hvw.inferParams x (huv.inferParams x hx)
  · exact fun x hx => hvw.trainParams x (huv.trainParams x hx)
  · exact fun x hx => hvw.transferPlan x (huv.transferPlan x hx)
  · exact fun x hx => hvw.masterInfo x (huv.masterInfo x hx)
  · exact fun x hx => hvw.recvTensor x (huv.recvTensor x hx)

theorem le_fill (v g : InitVars) : g.Le (v.fill g) := by
  constructor
  all_goals
    intro x hx
    simp [fill, hx]

theorem or_below {α : Type} {a b w : Option α} (ha : ∀ x, a = some x → w = some x) (hb : ∀ x, b = some x → w = some x) :
    (∀ x, a = some x → b.or a = some x) ∧ ∀ x, b.or a = some x → w = some x := by
  cases b with
  | none => exact ⟨fun x hx => hx, fun x hx => ha x hx⟩
  | some y =>
    refine ⟨?_, hb⟩
    intro x hx
    have hy := hb y rfl
    rw [ha x hx] at hy
    exact hy.symm

theorem Le.fill {v g w : InitVars} (hv : v.Le w) (hg : g.Le w) : v.Le (v.fill g) ∧ (v.fill g).Le w :=
  have h₁ := or_below hv.inferWorldSize hg.inferWorldSize
  have h₂ := or_below hv.numInferEngines hg.numInferEngines
  have h₃ := or_below hv.inferParams hg.inferParams
  have h₄ := or_below hv.trainParams hg.trainParams
  have h₅ := or_below hv.transferPlan hg.transferPlan
  have h₆ := or_below hv.masterInfo hg.masterInfo
  have h₇ := or_below hv.recvTensor hg.recvTensor
  ⟨⟨h₁.1, h₂.1, h₃.1, h₄.1, h₅.1, h₆.1, h₇.1⟩, ⟨h₁.2, h₂.2, h₃.2, h₄.2, h₅.2, h₆.2, h₇.2⟩⟩

end InitVars

/-- The order in which all tasks can be done. -/
def InitTask.level (p : InitParty) : InitTask → ℕ
  | .putNumInferEngines => 0
  | .addInitedEngine _ => 1
  | .resolveParamsMeta _ => 2
  | .putInferConf => 3
  | .putInferParamsMeta => 4
  | .getInferConf => 5
  | .gatherParamsMeta => 6
  | .putTrainingParamsMeta => 7
  | .getInferParamsMeta => 8
  | .getTrainingParamsMeta => 8
  | .broadcastInferParamsMeta => 9
  | .checkParamsMeta => 10
  | .getNumInferEngines => 11
  | .startTpWorkers => 11
  | .initInTpWorker _ => 12
  | .buildTransferPlan => 13
  | .shareMasterInfo => if p = .worker 0 0 then 14 else 15
  | .getMasterInfo => 15
  | .initProcessGroup => 16
  | .barrier => 17
  | .shakeHands => 18
  | .batchIsendIrecv => 19
  | .setupBarrier => 20
  | .awaitTpWorkers _ => 21

theorem initProgram_sorted (p : InitParty) : (initProgram p).Pairwise (fun t t' => t.level p < t'.level p) := by
  cases p with
  | engine e =>
    simp only [initProgram]
    split_ifs <;> simp [InitTask.level]
  | worker e i =>
    simp only [initProgram, InitTask.level, List.pairwise_cons, List.mem_cons]
    split_ifs <;> simp
  | train t =>
    simp only [initProgram]
    split_ifs <;> simp [InitTask.level]

namespace InitSetup

variable (c : InitSetup)

/-- The sizes in the metadata are those that the parties have been started with. -/
structure SizesAgree : Prop where
  engines : 0 < c.numEngines
  instances : 0 < c.instanceWorldSize
  trainers : 0 < c.trainWorldSize
  infer : ∀ e < c.numEngines, recordedWorldSize (c.inferParams e) = c.instanceWorldSize
  train : recordedWorldSize c.trainParams = c.trainWorldSize
  world : c.inferWorldSize = c.numEngines * c.instanceWorldSize

def worldSize : ℕ := c.trainWorldSize + c.inferWorldSize

def rank : InitParty → ℕ
  | .engine _ => 0
  | .worker e i => e * c.instanceWorldSize + i
  | .train t => c.inferWorldSize + t

/-- The inference metadata that the party works with. -/
def paramsOf : InitParty → List ParameterMeta
  | .engine e => c.inferParams e
  | .worker e _ => c.inferParams e
  | .train _ => c.inferParams 0

def master : MasterInfo := c.masterInfo (.worker 0 0)

def known : InitParty → InitVars
  | .engine e => { InitVars.empty with inferParams := some (c.inferParams e), trainParams := some c.trainParams }
  | .worker e _ => { InitVars.empty with
      inferParams := some (c.inferParams e)
      trainParams := some c.trainParams
      masterInfo := some c.master }
  | .train _ => { InitVars.empty with
      inferWorldSize := some c.inferWorldSize
      numInferEngines := some c.numEngines
      inferParams := some (c.inferParams 0)
      trainParams := some c.trainParams
      masterInfo := some c.master }

def plan (p : InitParty) : Option TransferPlan := c.buildPlan (c.known p) p

def finished (p : InitParty) : InitVars :=
  { c.known p with transferPlan := c.plan p, recvTensor := receivedValue c.worldSize (c.rank p) }

/-- What a task adds to the variables of the party. -/
def gain (p : InitParty) : InitTask → InitVars
  | .resolveParamsMeta _ | .getInferParamsMeta | .broadcastInferParamsMeta =>
      { InitVars.empty with inferParams := (c.known p).inferParams }
  | .gatherParamsMeta | .getTrainingParamsMeta => { InitVars.empty with trainParams := (c.known p).trainParams }
  | .initInTpWorker _ => { InitVars.empty with
      inferParams := (c.known p).inferParams, trainParams := (c.known p).trainParams }
  | .getInferConf => { InitVars.empty with inferWorldSize := (c.known p).inferWorldSize }
  | .getNumInferEngines => { InitVars.empty with numInferEngines := (c.known p).numInferEngines }
  | .buildTransferPlan => { InitVars.empty with transferPlan := c.plan p }
  | .shareMasterInfo | .getMasterInfo => { InitVars.empty with masterInfo := (c.known p).masterInfo }
  | .batchIsendIrecv => { InitVars.empty with recvTensor := receivedValue c.worldSize (c.rank p) }
  | _ => .empty

theorem gain_le (p : InitParty) (t : InitTask) : (c.gain p t).Le (c.finished p) := by
  cases t
  all_goals
    constructor
    all_goals
      intro x hx
      first
      | cases hx
      | exact hx

/-- The key that a task puts an object under. -/
def puts (p : InitParty) : InitTask → Option InitKey
  | .putNumInferEngines => some .numInferEngines
  | .putInferConf => some .inferConf
  | .putInferParamsMeta => some .inferParamsMeta
  | .putTrainingParamsMeta => some .trainingParamsMeta
  | .shareMasterInfo => if p = .worker 0 0 then some .masterInfo else none
  | _ => none

def served : InitKey → Option InitObject
  | .numInferEngines => some (.count c.numEngines)
  | .numInitedInferenceEngines => none
  | .inferConf => some (.inferConf c.inferWorldSize)
  | .inferParamsMeta => some (.paramsMeta (c.inferParams 0))
  | .trainingParamsMeta => some (.paramsMeta c.trainParams)
  | .masterInfo => some (.masterInfo c.master)

structure Serves (server : MetaServer InitKey InitObject) : Prop where
  object : ∀ key obj, server.storage key = some (.object obj) → c.served key = some obj
  members : ∀ key objects, server.storage key = some (.members objects) → key = .numInitedInferenceEngines

def Passed (p : InitParty) : InitTask → Prop
  | .checkParamsMeta => checkTrainInferParamsMeta c.trainParams (c.paramsOf p) (c.raiseException p)
      c.strictParamKeyMatch = .ok ()
  | .buildTransferPlan => (c.plan p).isSome
  | _ => True

/-- What each party has done, it and the server still know. -/
structure InInit (s : InitState) : Prop where
  suffix : ∀ p, s.todo p <:+ initProgram p
  below : ∀ p ∈ c.parties, (s.vars p).Le (c.finished p)
  serves : c.Serves s.server
  gained : ∀ p ∈ c.parties, ∀ t ∈ initProgram p, t ∉ s.todo p → (c.gain p t).Le (s.vars p)
  kept : ∀ p ∈ c.parties, ∀ t ∈ initProgram p, t ∉ s.todo p → ∀ key, puts p t = some key → s.server.hasKey key
  passed : ∀ p ∈ c.parties, ∀ t ∈ initProgram p, t ∉ s.todo p → c.Passed p t

structure Grows (server server' : MetaServer InitKey InitObject) (put : Option InitKey) : Prop where
  serves : c.Serves server'
  keeps : ∀ key, server.hasKey key → server'.hasKey key
  puts : ∀ key, put = some key → server'.hasKey key

variable {c}

theorem Serves.grows_self {server : MetaServer InitKey InitObject} (h : c.Serves server) : c.Grows server server none :=
  ⟨h, fun _ hkey => hkey, by simp⟩

theorem Serves.grows_put {server : MetaServer InitKey InitObject} (h : c.Serves server) {key : InitKey}
    {obj : InitObject} (hobj : c.served key = some obj) : c.Grows server (server.putObject key obj) (some key) := by
  have hother : ∀ key', key' ≠ key → (server.putObject key obj).storage key' = server.storage key' :=
    fun key' hne => server.storage_store_of_ne hne _
  have hself : (server.putObject key obj).storage key = some (.object obj) := server.storage_store key _
  constructor
  · constructor
    · intro key' obj' hstored
      by_cases hkey : key' = key
      · subst hkey
        rw [hself] at hstored
        cases hstored
        exact hobj
      · rw [hother key' hkey] at hstored
        exact h.object key' obj' hstored
    · intro key' objects hstored
      by_cases hkey : key' = key
      · subst hkey
        rw [hself] at hstored
        cases hstored
      · rw [hother key' hkey] at hstored
        exact h.members key' objects hstored
  · intro key' hhas
    by_cases hkey : key' = key
    · subst hkey
      simp [MetaServer.hasKey, hself]
    · simpa [MetaServer.hasKey, hother key' hkey] using hhas
  · intro key' hkey
    cases hkey
    simp [MetaServer.hasKey, hself]

theorem Serves.isSetKey {server : MetaServer InitKey InitObject} (h : c.Serves server) :
    server.IsSetKey .numInitedInferenceEngines := by
  intro obj hstored
  cases h.object _ _ hstored

theorem Serves.grows_add {server : MetaServer InitKey InitObject} (h : c.Serves server) (obj : InitObject) :
    ∃ server', server.addObjectToSet .numInitedInferenceEngines obj = .ok server' ∧ c.Grows server server' none := by
  obtain ⟨server', hadd, hset, hmembers, hother⟩ := server.addObjectToSet_spec h.isSetKey obj
  have hstored : server'.storage .numInitedInferenceEngines =
      some (.members (server'.setAt .numInitedInferenceEngines)) :=
    MetaServer.storage_eq_of_mem (hmembers ▸ Finset.mem_insert_self obj _)
  refine ⟨server', hadd, ⟨?_, ?_⟩, ?_, by simp⟩
  · intro key obj' hobj'
    by_cases hkey : key = .numInitedInferenceEngines
    · subst hkey
      exact absurd hobj' (hset obj')
    · rw [hother key hkey] at hobj'
      exact h.object key obj' hobj'
  · intro key objects hobjects
    by_cases hkey : key = .numInitedInferenceEngines
    · exact hkey
    · rw [hother key hkey] at hobjects
      exact h.members key objects hobjects
  · intro key hhas
    by_cases hkey : key = .numInitedInferenceEngines
    · subst hkey
      simp [MetaServer.hasKey, hstored]
    · simpa [MetaServer.hasKey, hother key hkey] using hhas

theorem Serves.read_eq {s : InitState} (h : c.Serves s.server) {α : Type} {key : InitKey} {get : InitObject → Option α}
    {x : α} (hread : s.read key get = some x) : (c.served key).bind get = some x := by
  unfold InitState.read at hread
  split at hread
  · next obj hstored =>
    rw [h.object key obj hstored]
    exact hread
  · cases hread

theorem Serves.read_of_hasKey {s : InitState} (h : c.Serves s.server) {α : Type} {key : InitKey}
    (get : InitObject → Option α) (hkey : key ≠ .numInitedInferenceEngines) (hhas : s.server.hasKey key) :
    s.read key get = (c.served key).bind get := by
  unfold InitState.read
  cases hstored : s.server.storage key with
  | none => simp [MetaServer.hasKey, hstored] at hhas
  | some stored =>
    cases stored with
    | object obj => rw [h.object key obj hstored, Option.bind_some]
    | members objects => exact absurd (h.members key objects hstored) hkey

theorem inferParams_eq {v : InitVars} {p : InitParty} (h : v.Le (c.finished p)) {x : List ParameterMeta}
    (hx : v.inferParams = some x) : x = c.paramsOf p := by
  have hfinished := h.inferParams x hx
  cases p <;> exact (Option.some.inj hfinished).symm

theorem trainParams_eq {v : InitVars} {p : InitParty} (h : v.Le (c.finished p)) {x : List ParameterMeta}
    (hx : v.trainParams = some x) : x = c.trainParams := by
  have hfinished := h.trainParams x hx
  cases p <;> exact (Option.some.inj hfinished).symm

theorem mem_workers {e : ℕ} {p : InitParty} : p ∈ c.workers e ↔ ∃ i < c.instanceWorldSize, p = .worker e i := by
  simp [workers, eq_comm]

theorem mem_trainers {p : InitParty} : p ∈ c.trainers ↔ ∃ t < c.trainWorldSize, p = .train t := by
  simp [trainers, eq_comm]

theorem engine_mem_parties {e : ℕ} : .engine e ∈ c.parties ↔ e < c.numEngines := by
  simp [parties, engines, ranks, workers, trainers]

theorem worker_mem_parties {e i : ℕ} : .worker e i ∈ c.parties ↔ e < c.numEngines ∧ i < c.instanceWorldSize := by
  simp [parties, engines, ranks, workers, trainers]

theorem train_mem_parties {t : ℕ} : .train t ∈ c.parties ↔ t < c.trainWorldSize := by
  simp [parties, engines, ranks, workers, trainers]

section Seats

variable (hsizes : c.SizesAgree)
include hsizes

theorem seat_known {p : InitParty} (hp : p ∈ c.parties) {v : InitVars} (hv : v.Le (c.finished p)) {x : ℕ × ℕ}
    (hx : c.seat v p = some x) : x = (c.rank p, c.worldSize) := by
  cases p with
  | engine e => simp [seat, transferRank] at hx
  | worker e i =>
    have he := (worker_mem_parties.mp hp).1
    simp only [seat, transferRank, Option.map_eq_some_iff, Option.bind_eq_bind, Option.bind_eq_some_iff] at hx
    obtain ⟨_, ⟨infer, hinfer, train, htrain, hr⟩, rfl⟩ := hx
    cases hr
    obtain rfl := inferParams_eq hv hinfer
    obtain rfl := trainParams_eq hv htrain
    simp [paramsOf, hsizes.infer e he, hsizes.train, rank, worldSize, hsizes.world]
  | train t =>
    simp only [seat, transferRank, Option.map_eq_some_iff, Option.bind_eq_bind, Option.bind_eq_some_iff] at hx
    obtain ⟨_, ⟨inferWorldSize, hinfer, numInferEngines, hengines, hr⟩, rfl⟩ := hx
    cases hr
    cases hv.inferWorldSize _ hinfer
    rfl

end Seats

theorem plan_eq {p : InitParty} {v : InitVars} (hv : v.Le (c.finished p)) {plan : TransferPlan}
    (hplan : c.buildPlan v p = some plan) : c.plan p = some plan := by
  unfold buildPlan at hplan
  simp only [Option.bind_eq_bind, Option.bind_eq_some_iff] at hplan
  obtain ⟨r, hr, infer, hinfer, train, htrain, hbuilt⟩ := hplan
  have hr' : c.transferRank (c.known p) p = some r := by
    cases p with
    | engine e => cases hr
    | worker e i =>
      simp only [transferRank, Option.bind_eq_bind, Option.bind_eq_some_iff] at hr ⊢
      obtain ⟨infer', hinfer', train', htrain', hr⟩ := hr
      exact ⟨infer', hv.inferParams _ hinfer', train', hv.trainParams _ htrain', hr⟩
    | train t =>
      simp only [transferRank, Option.bind_eq_bind, Option.bind_eq_some_iff] at hr ⊢
      obtain ⟨infer', hinfer', engines, hengines, hr⟩ := hr
      exact ⟨infer', hv.inferWorldSize _ hinfer', engines, hv.numInferEngines _ hengines, hr⟩
  unfold InitSetup.plan buildPlan
  simp only [Option.bind_eq_bind, Option.bind_eq_some_iff]
  exact ⟨r, hr', infer, hv.inferParams _ hinfer, train, hv.trainParams _ htrain, hbuilt⟩

end InitSetup

end Awex
