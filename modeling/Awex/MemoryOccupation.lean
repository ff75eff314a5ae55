import Awex.Library.Runs
import Mathlib.Data.Finset.Lattice.Lemmas
import Mathlib.Data.Finset.SDiff

namespace Awex

inductive MemoryTag where
  | kvCache
  | weights
  deriving DecidableEq, Repr

def allTags : Finset MemoryTag := {.kvCache, .weights}

theorem subset_allTags (tags : Finset MemoryTag) : tags ⊆ allTags := by
  intro tag _
  cases tag <;> decide

/-- The argument `tags` of a call. -/
inductive TagsArg where
  | none
  | one (tag : MemoryTag)
  | many (tags : List MemoryTag)
  deriving Repr

def TagsArg.requested : TagsArg → Finset MemoryTag
  | .none => allTags
  | .one tag => {tag}
  | .many [] => allTags
  | .many tags => tags.toFinset

inductive BackendError where
  | raised
  deriving DecidableEq, Repr

/-- What is recorded as released, and what the backend has released. -/
structure MemoryRecord where
  releasedTags : Finset MemoryTag
  backend : Finset MemoryTag

namespace MemoryRecord

def Truthful (s : MemoryRecord) : Prop := s.releasedTags = s.backend

instance (s : MemoryRecord) : Decidable s.Truthful := inferInstanceAs (Decidable (_ = _))

/-- A call of the backend changes nothing when it raises. -/
def callBackend (s : MemoryRecord) (raises : Bool) (backend : Finset MemoryTag) :
    Except BackendError Unit × MemoryRecord :=
  if raises then (.error .raised, s) else (.ok (), { s with backend := backend })

end MemoryRecord

structure EngineMemory extends MemoryRecord where
  initialized : Bool
  nodeRank : ℕ

namespace EngineMemory

def Serves (s : EngineMemory) : Prop := s.initialized ∧ s.nodeRank = 0

instance (s : EngineMemory) : Decidable s.Serves := inferInstanceAs (Decidable (_ ∧ _))

def fresh : EngineMemory where
  releasedTags := ∅
  backend := ∅
  initialized := true
  nodeRank := 0

def withRecord (s : EngineMemory) (result : Except BackendError Unit × MemoryRecord) :
    Except BackendError Unit × EngineMemory :=
  (result.1, { s with toMemoryRecord := result.2 })

end EngineMemory

/-- A release, where the backend releases `offloaded` of the tags that it is called for. -/
def releaseMemoryOccupation (offloaded : Finset MemoryTag → Finset MemoryTag) (s : EngineMemory) (tags : TagsArg)
    (raises : Bool) : Except BackendError Unit × EngineMemory :=
  if s.Serves then
    let tags := if tags.requested \ s.releasedTags ≠ tags.requested then tags.requested \ s.releasedTags
      else tags.requested
    -- the record comes before the call
    let s := { s with releasedTags := s.releasedTags ∪ tags }
    if tags = ∅ then (.ok (), s)
    else s.withRecord (s.callBackend raises (s.backend ∪ offloaded tags))
  else (.ok (), s)

def resumeMemoryOccupation (s : EngineMemory) (tags : TagsArg) (raises : Bool) :
    Except BackendError Unit × EngineMemory :=
  if s.Serves then
    let tags := s.releasedTags ∩ tags.requested
    let s := { s with releasedTags := s.releasedTags \ tags }
    if tags = ∅ then (.ok (), s)
    else s.withRecord (s.callBackend raises (s.backend \ tags))
  else (.ok (), s)

def SGLangEngine.releaseMemoryOccupation := Awex.releaseMemoryOccupation (fun tags => tags)

def SGLangEngine.resumeMemoryOccupation := Awex.resumeMemoryOccupation

/-- The engine offloads the whole of its memory. -/
def VLLMEngine.releaseMemoryOccupation := Awex.releaseMemoryOccupation (fun _ => allTags)

def VLLMEngine.resumeMemoryOccupation := Awex.resumeMemoryOccupation

inductive EngineKind where
  | sglang
  | vllm
  deriving DecidableEq, Repr

inductive MemoryOperation where
  | release
  | resume
  deriving DecidableEq, Repr

structure MemoryCall where
  operation : MemoryOperation
  tags : TagsArg
  raises : Bool

def EngineKind.call (engine : EngineKind) (s : EngineMemory) (call : MemoryCall) :
    Except BackendError Unit × EngineMemory :=
  match engine, call.operation with
  | .sglang, .release => SGLangEngine.releaseMemoryOccupation s call.tags call.raises
  | .sglang, .resume => SGLangEngine.resumeMemoryOccupation s call.tags call.raises
  | .vllm, .release => VLLMEngine.releaseMemoryOccupation s call.tags call.raises
  | .vllm, .resume => VLLMEngine.resumeMemoryOccupation s call.tags call.raises

def EngineKind.next (engine : EngineKind) (s : EngineMemory) (call : MemoryCall) : EngineMemory := (engine.call s call).2

section Truthful

open Runs

variable {s : EngineMemory} {tags : TagsArg} {raises : Bool} {requested recorded : Finset MemoryTag}

/-- There is something to release or to resume, by the record. -/
def ReachesBackend (s : EngineMemory) (call : MemoryCall) : Prop :=
  s.Serves ∧ match call.operation with
    | .release => ¬ call.tags.requested ⊆ s.releasedTags
    | .resume => ¬ Disjoint s.releasedTags call.tags.requested

/-- An offload leaves nothing that the record does not say. -/
def RecordsOffload (engine : EngineKind) (s : EngineMemory) (call : MemoryCall) : Prop :=
  engine = .vllm → call.operation = .release → s.releasedTags ∪ call.tags.requested = allTags

def KeepsRecord (engine : EngineKind) (s : EngineMemory) (call : MemoryCall) : Prop :=
  ReachesBackend s call → call.raises = false ∧ RecordsOffload engine s call

theorem withRecord_truthful {call : Except BackendError Unit × MemoryRecord} :
    (s.withRecord call).2.Truthful ↔ call.2.Truthful :=
  Iff.rfl

theorem callBackend_truthful {record : MemoryRecord} {backend : Finset MemoryTag} :
    (record.callBackend raises backend).2.Truthful ↔
      record.releasedTags = if raises then record.backend else backend := by
  unfold MemoryRecord.callBackend
  cases raises <;> rfl

theorem release_truthful_iff (offloaded : Finset MemoryTag → Finset MemoryTag) (h : s.Truthful) :
    (releaseMemoryOccupation offloaded s tags raises).2.Truthful ↔
      (s.Serves → ¬ tags.requested ⊆ s.releasedTags → raises = false ∧
        s.releasedTags ∪ tags.requested = s.releasedTags ∪ offloaded (tags.requested \ s.releasedTags)) := by
  have hpending : (if tags.requested \ s.releasedTags ≠ tags.requested then tags.requested \ s.releasedTags
      else tags.requested) = tags.requested \ s.releasedTags := by
    split_ifs with hsame
    · rfl
    · exact (not_not.mp hsame).symm
  unfold releaseMemoryOccupation
  rw [hpending]
  by_cases hserves : s.Serves
  · rw [if_pos hserves]
    dsimp only
    by_cases hsubset : tags.requested ⊆ s.releasedTags
    · rw [if_pos (Finset.sdiff_eq_empty_iff_subset.mpr hsubset), Finset.sdiff_eq_empty_iff_subset.mpr hsubset,
        Finset.union_empty]
      exact ⟨fun _ _ hreach => absurd hsubset hreach, fun _ => h⟩
    · have hgrows : s.releasedTags ∪ tags.requested ≠ s.releasedTags :=
        fun heq => hsubset (Finset.union_eq_left.mp heq)
      rw [if_neg (fun hempty => hsubset (Finset.sdiff_eq_empty_iff_subset.mp hempty)), withRecord_truthful,
        callBackend_truthful]
      dsimp only
      rw [Finset.union_sdiff_self_eq_union, ← h]
      cases raises with
      | false => simp [hserves, hsubset]
      | true => simp [hserves, hsubset, hgrows]
  · rw [if_neg hserves]
    exact ⟨fun _ hs => absurd hs hserves, fun _ => h⟩

theorem resume_truthful_iff (h : s.Truthful) : (resumeMemoryOccupation s tags raises).2.Truthful ↔
    (s.Serves → ¬ Disjoint s.releasedTags tags.requested → raises = false) := by
  unfold resumeMemoryOccupation
  by_cases hserves : s.Serves
  · rw [if_pos hserves]
    dsimp only
    by_cases hdisjoint : Disjoint s.releasedTags tags.requested
    · rw [if_pos (Finset.disjoint_iff_inter_eq_empty.mp hdisjoint), Finset.disjoint_iff_inter_eq_empty.mp hdisjoint,
        Finset.sdiff_empty]
      exact ⟨fun _ _ hreach => absurd hdisjoint hreach, fun _ => h⟩
    · have hshrinks : s.releasedTags \ (s.releasedTags ∩ tags.requested) ≠ s.releasedTags := by
        rw [Finset.sdiff_inter_self_left]
        exact fun heq => hdisjoint (Finset.sdiff_eq_self_iff_disjoint.mp heq)
      rw [if_neg (fun hempty => hdisjoint (Finset.disjoint_iff_inter_eq_empty.mpr hempty)), withRecord_truthful,
        callBackend_truthful]
      dsimp only
      rw [← h]
      cases raises with
      | false => simp [hserves, hdisjoint]
      | true => simp only [if_true, hshrinks, hserves, hdisjoint]; simp
  · rw [if_neg hserves]
    exact ⟨fun _ hs => absurd hs hserves, fun _ => h⟩

theorem next_truthful_iff (engine : EngineKind) (call : MemoryCall) (h : s.Truthful) :
    (engine.next s call).Truthful ↔ KeepsRecord engine s call := by
  obtain ⟨operation, tags, raises⟩ := call
  unfold KeepsRecord ReachesBackend RecordsOffload
  cases operation with
  | release =>
    cases engine with
    | sglang =>
      refine (release_truthful_iff (fun tags => tags) h).trans ?_
      simp [Finset.union_sdiff_self_eq_union]
    | vllm =>
      refine (release_truthful_iff (fun _ => allTags) h).trans ?_
      rw [Finset.union_eq_right.mpr (subset_allTags s.releasedTags)]
      simp
  | resume =>
    have hresume : (engine.next s ⟨.resume, tags, raises⟩).Truthful ↔
        (resumeMemoryOccupation s tags raises).2.Truthful := by
      cases engine <;> exact Iff.rfl
    rw [hresume, resume_truthful_iff h]
    simp

/-- The record is truthful all along exactly if each call that reaches the backend succeeds, and each offload is
asked for all that it releases. -/
theorem releasedTags_truthful_iff (engine : EngineKind) (h : s.Truthful) (calls : List MemoryCall) :
    Throughout engine.next (fun s => s.Truthful) s calls ↔ EachStep engine.next (KeepsRecord engine) s calls :=
  throughout_iff (P := fun s : EngineMemory => s.Truthful) (fun _ call hs => next_truthful_iff engine call hs) h calls

/-- A weights update: all of the memory is released, and resumed in two parts. -/
def updateCalls : List MemoryCall :=
  [⟨.release, .none, false⟩, ⟨.resume, .one .weights, false⟩, ⟨.resume, .many [.kvCache], false⟩]

theorem releasedTags_truthful_update : Throughout EngineKind.vllm.next (fun s => s.Truthful) .fresh updateCalls := by
  apply (releasedTags_truthful_iff (s := .fresh) .vllm rfl updateCalls).mpr
  refine ⟨fun _ => ⟨rfl, fun _ _ => rfl⟩, fun _ => ⟨rfl, ?_⟩, fun _ => ⟨rfl, ?_⟩, trivial⟩
  · exact fun _ hrelease => nomatch hrelease
  · exact fun _ hrelease => nomatch hrelease

theorem not_releasedTags_truthful :
    ¬ Throughout EngineKind.sglang.next (fun s => s.Truthful) .fresh
        [⟨.release, .one .kvCache, true⟩, ⟨.release, .one .kvCache, false⟩] ∧
      (EngineKind.sglang.next (EngineKind.sglang.next .fresh ⟨.release, .one .kvCache, true⟩)
        ⟨.release, .one .kvCache, false⟩).toMemoryRecord = ⟨{.kvCache}, ∅⟩ ∧
      ¬ Throughout EngineKind.vllm.next (fun s => s.Truthful) .fresh [⟨.release, .one .weights, false⟩] := by
  -- a release that fails is recorded, so that the next one is skipped; an offload of the weights takes the cache
  -- too
  refine ⟨fun h => ?_, ?_, fun h => ?_⟩
  · exact absurd h.2.start (by decide)
  · rfl
  · exact absurd h.2.start (by decide)

end Truthful

section Adapter

open Runs

namespace AwexSGLangAdapter

def requested : Option (List MemoryTag) → List MemoryTag
  | none => [.kvCache]
  | some [] => [.kvCache]
  | some tags => tags

def releaseMemory (s : MemoryRecord) (tags : Option (List MemoryTag)) (raises : Bool) :
    Except BackendError Unit × MemoryRecord :=
  let nativeTags := (requested tags).filter (· ∉ s.releasedTags)
  if nativeTags = [] then (.ok (), s)
  else match s.callBackend raises (s.backend ∪ nativeTags.toFinset) with
    | (.error e, s) => (.error e, s)
    | (.ok (), s) => (.ok (), { s with releasedTags := s.releasedTags ∪ nativeTags.toFinset })

def resumeMemory (s : MemoryRecord) (tags : Option (List MemoryTag)) (raises : Bool) :
    Except BackendError Unit × MemoryRecord :=
  let resumeTags := (requested tags).filter (· ∈ s.releasedTags)
  if resumeTags = [] then (.ok (), s)
  else match s.callBackend raises (s.backend \ resumeTags.toFinset) with
    | (.error e, s) => (.error e, s)
    | (.ok (), s) => (.ok (), { s with releasedTags := s.releasedTags \ resumeTags.toFinset })

def next (s : MemoryRecord) (call : MemoryOperation × Option (List MemoryTag) × Bool) : MemoryRecord :=
  match call with
  | (.release, tags, raises) => (releaseMemory s tags raises).2
  | (.resume, tags, raises) => (resumeMemory s tags raises).2

theorem next_truthful {s : MemoryRecord} (call : MemoryOperation × Option (List MemoryTag) × Bool) (h : s.Truthful) :
    (next s call).Truthful := by
  obtain ⟨operation, tags, raises⟩ := call
  have hrecord : s.releasedTags = s.backend := h
  cases operation with
  | release =>
    unfold next releaseMemory
    dsimp only
    split_ifs
    · exact h
    · cases raises with
      | false => exact congrArg (fun released => released ∪ _) hrecord
      | true => exact h
  | resume =>
    unfold next resumeMemory
    dsimp only
    split_ifs
    · exact h
    · cases raises with
      | false => exact congrArg (fun released => released \ _) hrecord
      | true => exact h

/-- The adapter records a tag once the backend has done its part. -/
theorem throughout_truthful {s : MemoryRecord} (h : s.Truthful)
    (calls : List (MemoryOperation × Option (List MemoryTag) × Bool)) : Throughout next MemoryRecord.Truthful s calls :=
  (throughout_iff (fun _ call hs => iff_of_true (next_truthful call hs) trivial) h calls).mpr
    (eachStep_of_forall (fun _ _ => trivial) s calls)

end AwexSGLangAdapter

end Adapter

end Awex
