import Awex.ChunkedTransfer
import Awex.NcclStages
import Awex.PlanAgreement
import Awex.TwoPhase

namespace Awex

open NcclColocateTransport Rendezvous

variable {α : Type}

/-- Both sides of a pair have planned the same operations. -/
structure StagedFamily (worldSize : ℕ) (u : ℕ → ColocateUpdate) : Prop where
  rank : ∀ a < worldSize, (u a).transferRank = a
  size : ∀ a < worldSize, (u a).worldSize = worldSize
  agree : ∀ a < worldSize, ∀ b < worldSize, a ≠ b → (u a).sendTransferPlan.operations.getD b [] =
    (u b).recvTransferPlan.operations.getD (mapRank (u b).inferToTrain a) []

theorem stagedFamily_of_planned {b : TransferPlanBuilder} {infer train : List ParameterMeta} {t : ℕ → ℕ}
    {u : ℕ → ColocateUpdate} {worldSize : ℕ} (hworld : worldSize ≤ b.inferWorldSize)
    (ht : ∀ a < worldSize, b.inferWorldSize ≤ t a) (hu : ∀ a < worldSize, PlannedUpdate b infer train (t a) a (u a))
    (hsize : ∀ a < worldSize, (u a).worldSize = worldSize)
    (hmapped : ∀ a < worldSize, ∀ c < worldSize, (u c).inferToTrain.get? a = some (t a)) :
    StagedFamily worldSize u where
  rank := fun a ha => (hu a ha).rank
  size := hsize
  agree := by
    intro a ha c hc _
    rw [mapRank, Dict.getD, Dict.getD, Dict.getD, hmapped a ha c hc, Option.getD_some,
      trainPlan_get? b infer train (t a) c (ht a ha) _ (hu a ha).send_plan,
      inferPlan_get? b infer train (t a) c (hc.trans_le hworld) _ (hu c hc).recv_plan]

/-- What every rank still has to execute, with a barrier after each list. -/
def stagedPrograms (worldSize : ℕ) (phases : ℕ → List (List BuiltOp)) : PhasedState ℕ := fun a =>
  if a < worldSize then (phases a).map (fun ops => ops.map (·.2.action)) else []

section Programs

variable (u : ColocateUpdate)

def sendActions (stage : ℕ) : List (Action ℕ) := (stageSends u stage).map (fun _ => .send (sendToRank u stage))

def recvActions (stage : ℕ) : List (Action ℕ) := (stageRecvs u stage).map (fun _ => .recv (recvFromRank u stage))

def stageProgram (stage : ℕ) : List (List (Action ℕ)) :=
  if stage = 0 then []
  else if computeTwoPhasePartition u.transferRank stage u.worldSize = 0 then [sendActions u stage, recvActions u stage]
  else [recvActions u stage, sendActions u stage]

theorem length_stageProgram (stage : ℕ) : (stageProgram u stage).length = if stage = 0 then 0 else 2 := by
  unfold stageProgram
  split_ifs <;> rfl

variable {u} {cast : Dtype → Dtype → α → α} {m : Memory α}

theorem stagePosted_program {stage : ℕ} (hstage : stage < u.worldSize) {s : StageOps} (h : StagePosted u m stage s) :
    (orderedPhases u s).map (fun ops => ops.map (·.2.action)) = stageProgram u stage := by
  have hoffset : s.stageOffset = stage := h.offset.trans (Nat.mod_eq_of_lt hstage)
  have hsends : s.sendOps.map (·.2.action) = sendActions u stage := by
    rw [sendActions]
    apply (map_eq_of_forall₂ _).symm
    apply h.sends.imp
    intro op built hsent
    rw [P2POp.action, hsent.send, hsent.peer]
    rfl
  have hrecvs : s.recvOps.map (·.2.action) = recvActions u stage := by
    rw [h.recvs, List.map_map]
    rfl
  unfold orderedPhases stageProgram
  rw [hoffset]
  split_ifs
  · rfl
  · rw [List.map_cons, List.map_singleton, hsends, hrecvs]
  · rw [List.map_cons, List.map_singleton, hsends, hrecvs]

theorem program_eq {r : List (List BuiltOp) × Memory α} (h : preparePhases u cast m = .ok r) :
    r.1.map (fun ops => ops.map (·.2.action)) = (List.range u.worldSize).flatMap (stageProgram u) := by
  obtain ⟨m', stages, hposted, hphases⟩ := preparePhases_spec h
  rw [hphases, List.map_flatMap]
  have hall : ∀ {ks : List ℕ} {ss : List StageOps}, (∀ k ∈ ks, k < u.worldSize) →
      List.Forall₂ (StagePosted u m') ks ss →
      ss.flatMap (fun s => (orderedPhases u s).map (fun ops => ops.map (·.2.action))) =
        ks.flatMap (stageProgram u) := by
    intro ks ss hks h
    induction h with
    | nil => rfl
    | cons hs _ ih =>
      obtain ⟨hk, hks⟩ := List.forall_mem_cons.mp hks
      rw [List.flatMap_cons, List.flatMap_cons, stagePosted_program hk hs, ih hks]
  exact hall (fun k hk => List.mem_range.mp hk) hposted

end Programs

section Ranks

variable {worldSize : ℕ} {u : ℕ → ColocateUpdate} (hu : StagedFamily worldSize u)

include hu

theorem sendToRank_eq {a stage : ℕ} (ha : a < worldSize) (hstage : stage < worldSize) :
    sendToRank (u a) stage = (a + stage) % worldSize := by
  unfold sendToRank
  rw [hu.rank a ha, hu.size a ha]
  dsimp only
  split_ifs with hge
  · rw [Nat.mod_eq_sub_mod hge, Nat.mod_eq_of_lt (by omega)]
  · rw [Nat.mod_eq_of_lt (by omega)]

theorem recvFromRank_eq_iff {a b stage : ℕ} (ha : a < worldSize) (hb : b < worldSize) (hstage : stage < worldSize) :
    recvFromRank (u b) stage = a ↔ (a + stage) % worldSize = b := by
  unfold recvFromRank
  rw [hu.rank b hb, hu.size b hb]
  rcases Nat.lt_or_ge (a + stage) worldSize with hlt | hge
  · rw [Nat.mod_eq_of_lt hlt]
    split_ifs <;> omega
  · rw [Nat.mod_eq_sub_mod hge, Nat.mod_eq_of_lt (by omega)]
    split_ifs <;> omega

theorem recvFromRank_lt {b stage : ℕ} (hb : b < worldSize) (hstage : stage < worldSize) :
    recvFromRank (u b) stage < worldSize := by
  unfold recvFromRank
  rw [hu.rank b hb, hu.size b hb]
  split_ifs <;> omega

omit hu in
theorem sendToRank_ne {a stage : ℕ} (ha : a < worldSize) (hpos : 0 < stage) (hstage : stage < worldSize) :
    (a + stage) % worldSize ≠ a := by
  rcases Nat.lt_or_ge (a + stage) worldSize with hlt | hge
  · rw [Nat.mod_eq_of_lt hlt]
    omega
  · rw [Nat.mod_eq_sub_mod hge, Nat.mod_eq_of_lt (by omega)]
    omega

theorem stageRecvs_eq {a b stage : ℕ} (ha : a < worldSize) (hb : b < worldSize) (hpos : 0 < stage)
    (hstage : stage < worldSize) (hab : (a + stage) % worldSize = b) :
    stageRecvs (u b) stage = stageSends (u a) stage := by
  have hne : b ≠ a := hab ▸ sendToRank_ne ha hpos hstage
  rw [stageRecvs, stageSends, (recvFromRank_eq_iff hu ha hb hstage).mpr hab, sendToRank_eq hu ha hstage, hab,
    hu.rank a ha, hu.rank b hb, if_neg hne.symm, if_neg hne, hu.agree a ha b hb hne.symm]

end Ranks

def phaseMeetings (worldSize : ℕ) (u : ℕ → ColocateUpdate) (stage phase : ℕ) : List (ℕ × ℕ) :=
  (List.range worldSize).flatMap (fun a =>
    if stageSendPhase a stage worldSize = phase then
      (stageSends (u a) stage).map (fun _ => (a, (a + stage) % worldSize))
    else [])

def stageMeetings (worldSize : ℕ) (u : ℕ → ColocateUpdate) (stage : ℕ) : List (List (ℕ × ℕ)) :=
  if stage = 0 then [] else [phaseMeetings worldSize u stage 1, phaseMeetings worldSize u stage 2]

/-- Whoever sends something is on the other side of its receiver. -/
def AllAlternate (worldSize : ℕ) (u : ℕ → ColocateUpdate) : Prop :=
  ∀ stage, 0 < stage → stage < worldSize → ∀ rank < worldSize,
    (u rank).sendTransferPlan.operations.getD ((rank + stage) % worldSize) [] ≠ [] →
      Alternates rank stage worldSize

section Meetings

variable {worldSize : ℕ} {u : ℕ → ColocateUpdate} (hu : StagedFamily worldSize u) {stage : ℕ} (hpos : 0 < stage)
  (hstage : stage < worldSize)

include hu hpos hstage

theorem stageSends_eq {a : ℕ} (ha : a < worldSize) :
    stageSends (u a) stage = (u a).sendTransferPlan.operations.getD ((a + stage) % worldSize) [] := by
  rw [stageSends, sendToRank_eq hu ha hstage, hu.rank a ha, if_neg (sendToRank_ne ha hpos hstage)]

theorem sends_opposite (halternate : AllAlternate worldSize u) {a : ℕ} (ha : a < worldSize)
    (hne : stageSends (u a) stage ≠ []) :
    stageSendPhase a stage worldSize ≠ stageSendPhase ((a + stage) % worldSize) stage worldSize := by
  have hcolours := (partition_ne_iff hpos hstage a).mpr
    (halternate stage hpos hstage a ha (stageSends_eq hu hpos hstage ha ▸ hne))
  unfold stageSendPhase
  rcases partition_cases a stage worldSize with h | h <;>
    rcases partition_cases ((a + stage) % worldSize) stage worldSize with h' | h' <;> simp_all

omit hu hpos hstage in
theorem project_meetings_of {a b : ℕ} (phase : ℕ) (ha : a ≠ b) (hab : (a + stage) % worldSize ≠ b) :
    project (if stageSendPhase a stage worldSize = phase then
      (stageSends (u a) stage).map (fun _ => (a, (a + stage) % worldSize)) else []) b = [] := by
  apply List.filterMap_eq_nil_iff.mpr
  intro e he
  split_ifs at he
  · obtain ⟨_, -, rfl⟩ := List.mem_map.mp he
    exact view_other b _ ha hab
  · exact absurd he List.not_mem_nil

theorem project_phaseMeetings_send (halternate : AllAlternate worldSize u) {b : ℕ} (hb : b < worldSize) :
    project (phaseMeetings worldSize u stage (stageSendPhase b stage worldSize)) b = sendActions (u b) stage := by
  rw [phaseMeetings, project_flatMap, flatMap_eq_of_unique List.nodup_range (List.mem_range.mpr hb)]
  · rw [if_pos rfl, sendActions, sendToRank_eq hu hb hstage]
    have hown := project_own b ((stageSends (u b) stage).map (fun _ => (b + stage) % worldSize))
    rwa [List.map_map, List.map_map] at hown
  · intro a ha hab
    rw [List.mem_range] at ha
    by_cases hpeer : (a + stage) % worldSize = b
    · by_cases hempty : stageSends (u a) stage = []
      · rw [hempty, List.map_nil, ite_self]
        rfl
      · have hopposite := sends_opposite hu hpos hstage halternate ha hempty
        rw [hpeer] at hopposite
        rw [if_neg hopposite]
        rfl
    · exact project_meetings_of _ hab hpeer

theorem project_phaseMeetings_recv (halternate : AllAlternate worldSize u) {b phase : ℕ} (hb : b < worldSize)
    (hphase : phase = 1 ∨ phase = 2) (hne : stageSendPhase b stage worldSize ≠ phase) :
    project (phaseMeetings worldSize u stage phase) b = recvActions (u b) stage := by
  obtain ⟨s, hs⟩ : ∃ s, recvFromRank (u b) stage = s := ⟨_, rfl⟩
  have hslt : s < worldSize := hs ▸ recvFromRank_lt hu hb hstage
  have hpeer := (recvFromRank_eq_iff hu hslt hb hstage).mp hs
  have hsb : s ≠ b := by
    rintro rfl
    exact sendToRank_ne hslt hpos hstage hpeer
  rw [phaseMeetings, project_flatMap, flatMap_eq_of_unique List.nodup_range (List.mem_range.mpr hslt)]
  · rw [recvActions, stageRecvs_eq hu hslt hb hpos hstage hpeer, hs, hpeer]
    by_cases hempty : stageSends (u s) stage = []
    · rw [hempty, List.map_nil, List.map_nil, ite_self]
      rfl
    · have hopposite := sends_opposite hu hpos hstage halternate hslt hempty
      rw [hpeer] at hopposite
      have hsend : stageSendPhase s stage worldSize = phase := by
        unfold stageSendPhase at *
        split_ifs at * <;> omega
      rw [if_pos hsend]
      have hother := project_other s b ((stageSends (u s) stage).map (fun _ => b)) hsb
      have hall : ((stageSends (u s) stage).map (fun _ => b)).filter (· = b) =
          (stageSends (u s) stage).map (fun _ => b) := by
        apply List.filter_eq_self.mpr
        intro r hr
        obtain ⟨_, -, rfl⟩ := List.mem_map.mp hr
        exact decide_eq_true rfl
      rw [hall, List.map_map, List.map_map] at hother
      exact hother
  · intro a ha hab
    rw [List.mem_range] at ha
    by_cases hself : a = b
    · subst hself
      rw [if_neg hne]
      rfl
    · apply project_meetings_of _ hself
      intro hpeer'
      exact hab (((recvFromRank_eq_iff hu ha hb hstage).mpr hpeer').symm.trans hs)

end Meetings

section Programs

variable {worldSize : ℕ} {u : ℕ → ColocateUpdate} (hu : StagedFamily worldSize u)

include hu

theorem stageProgram_eq (halternate : AllAlternate worldSize u) {stage b : ℕ} (hstage : stage < worldSize)
    (hb : b < worldSize) :
    stageProgram (u b) stage = (stageMeetings worldSize u stage).map (fun events => project events b) := by
  unfold stageProgram stageMeetings
  rw [hu.rank b hb, hu.size b hb]
  rcases Nat.eq_zero_or_pos stage with hzero | hpos
  · rw [if_pos hzero, if_pos hzero]
    rfl
  · rw [if_neg hpos.ne', if_neg hpos.ne', List.map_cons, List.map_singleton]
    have hsend := project_phaseMeetings_send hu hpos hstage halternate hb
    have hphase : stageSendPhase b stage worldSize =
        if computeTwoPhasePartition b stage worldSize = 0 then 1 else 2 := rfl
    split_ifs at hphase ⊢
    · rw [hphase] at hsend
      rw [hsend, project_phaseMeetings_recv hu hpos hstage halternate hb (.inr rfl) (by omega)]
    · rw [hphase] at hsend
      rw [hsend, project_phaseMeetings_recv hu hpos hstage halternate hb (.inl rfl) (by omega)]

theorem stagedPrograms_eq (halternate : AllAlternate worldSize u) {cast : Dtype → Dtype → α → α}
    {memory : ℕ → Memory α} {prepared : ℕ → List (List BuiltOp) × Memory α}
    (h : ∀ a < worldSize, preparePhases (u a) cast (memory a) = .ok (prepared a)) :
    stagedPrograms worldSize (fun a => (prepared a).1) =
      phased (Finset.range worldSize) ((List.range worldSize).flatMap (stageMeetings worldSize u)) := by
  funext b
  by_cases hb : b < worldSize
  · rw [stagedPrograms, if_pos hb, phased_apply (Finset.mem_range.mpr hb), program_eq (h b hb), hu.size b hb,
      List.map_flatMap]
    apply List.flatMap_congr
    intro stage hstage
    exact stageProgram_eq hu halternate (List.mem_range.mp hstage) hb
  · rw [stagedPrograms, if_neg hb, phased, if_neg (fun hmem => hb (Finset.mem_range.mp hmem))]

omit hu in
theorem mem_stageMeetings {stage : ℕ} (hstage : stage < worldSize) {events : List (ℕ × ℕ)}
    (hevents : events ∈ stageMeetings worldSize u stage) {e : ℕ × ℕ} (he : e ∈ events) :
    e.1 ≠ e.2 ∧ e.1 ∈ Finset.range worldSize ∧ e.2 ∈ Finset.range worldSize := by
  unfold stageMeetings at hevents
  split_ifs at hevents with hzero
  · exact absurd hevents List.not_mem_nil
  · obtain ⟨phase, rfl⟩ : ∃ phase, events = phaseMeetings worldSize u stage phase := by
      rw [List.mem_cons, List.mem_singleton] at hevents
      exact hevents.elim (fun h => ⟨1, h⟩) (fun h => ⟨2, h⟩)
    obtain ⟨a, ha, he⟩ := List.mem_flatMap.mp he
    split_ifs at he
    · obtain ⟨_, -, rfl⟩ := List.mem_map.mp he
      rw [List.mem_range] at ha
      exact ⟨(sendToRank_ne ha (Nat.pos_of_ne_zero hzero) hstage).symm, Finset.mem_range.mpr ha,
        Finset.mem_range.mpr (Nat.mod_lt _ (by omega))⟩
    · exact absurd he List.not_mem_nil

theorem alternates_of_balanced {cast : Dtype → Dtype → α → α}
    {memory : ℕ → Memory α} {prepared : ℕ → List (List BuiltOp) × Memory α}
    (h : ∀ a < worldSize, preparePhases (u a) cast (memory a) = .ok (prepared a))
    (hbalanced : Balanced (Finset.range worldSize) (stagedPrograms worldSize (fun a => (prepared a).1))) :
    AllAlternate worldSize u := by
  intro stage hpos hstage a ha hne
  obtain ⟨b, hab⟩ : ∃ b, (a + stage) % worldSize = b := ⟨_, rfl⟩
  have hb : b < worldSize := hab ▸ Nat.mod_lt _ (by omega)
  rw [← partition_ne_iff hpos hstage a, hab]
  intro hsame
  obtain ⟨front, back, hrange⟩ := List.append_of_mem (List.mem_range.mpr hstage)
  have hprogram : ∀ c < worldSize, stagedPrograms worldSize (fun a => (prepared a).1) c =
      front.flatMap (stageProgram (u c)) ++ (stageProgram (u c) stage ++ back.flatMap (stageProgram (u c))) := by
    intro c hc
    rw [stagedPrograms, if_pos hc, program_eq (h c hc), hu.size c hc, hrange, List.flatMap_append, List.flatMap_cons]
  have hlength : (front.flatMap (stageProgram (u a))).length = (front.flatMap (stageProgram (u b))).length := by
    rw [List.length_flatMap, List.length_flatMap]
    simp only [length_stageProgram]
  have hstageProgram : ∀ c < worldSize, stageProgram (u c) stage =
      if computeTwoPhasePartition c stage worldSize = 0 then [sendActions (u c) stage, recvActions (u c) stage]
      else [recvActions (u c) stage, sendActions (u c) stage] := by
    intro c hc
    rw [stageProgram, if_neg hpos.ne', hu.rank c hc, hu.size c hc]
  have hcount : (sendActions (u a) stage).count (.send b) = (sendActions (u b) stage).count (.recv a) := by
    have hmem := Finset.mem_range.mpr ha
    have hmem' := Finset.mem_range.mpr hb
    have hpa := hprogram a ha
    have hpb := hprogram b hb
    rw [hstageProgram a ha] at hpa
    rw [hstageProgram b hb, ← hsame] at hpb
    split_ifs at hpa hpb
    · exact hbalanced.count_eq hmem hmem' hpa hpb hlength
    · rw [List.cons_append, List.append_cons, List.singleton_append] at hpa hpb
      apply hbalanced.count_eq hmem hmem' hpa hpb
      rw [List.length_append, List.length_append, hlength, List.length_singleton, List.length_singleton]
  have hrecv : (sendActions (u b) stage).count (.recv a) = 0 := by
    apply List.count_eq_zero.mpr
    intro hmem
    obtain ⟨_, -, heq⟩ := List.mem_map.mp hmem
    cases heq
  have hsend : (sendActions (u a) stage).count (.send b) = (stageSends (u a) stage).length := by
    rw [sendActions, sendToRank_eq hu ha hstage, hab, List.map_const', List.count_replicate_self]
  rw [hrecv, hsend, List.length_eq_zero_iff, stageSends_eq hu hpos hstage ha] at hcount
  exact hne hcount

theorem neverStuck_staged_iff (hpos : 0 < worldSize) {cast : Dtype → Dtype → α → α}
    {memory : ℕ → Memory α} {prepared : ℕ → List (List BuiltOp) × Memory α}
    (h : ∀ a < worldSize, preparePhases (u a) cast (memory a) = .ok (prepared a)) :
    NeverStuck (Finset.range worldSize) (stagedPrograms worldSize (fun a => (prepared a).1)) ↔
      AllAlternate worldSize u := by
  have hne : (Finset.range worldSize).Nonempty := Finset.nonempty_range_iff.mpr hpos.ne'
  constructor
  · intro hstuck
    obtain ⟨st, hst, hfin⟩ := hstuck.exists_finished hne
    exact alternates_of_balanced hu h (balanced_of_finishes hst hfin)
  · intro halternate
    rw [stagedPrograms_eq hu halternate h]
    apply neverStuck_phased hne
    intro events hevents e he
    obtain ⟨stage, hstage, hevents⟩ := List.mem_flatMap.mp hevents
    exact mem_stageMeetings (List.mem_range.mp hstage) hevents he

end Programs

/-- The condition under which the colours, the phases and the whole transport are right. -/
theorem twoPhasePartition_iff (worldSize : ℕ) :
    (∀ stage, 0 < stage → stage < worldSize → ∀ rank < worldSize,
      (computeTwoPhasePartition rank stage worldSize ≠
          computeTwoPhasePartition ((rank + stage) % worldSize) stage worldSize ↔ Alternates rank stage worldSize) ∧
        (stageSendPhase rank stage worldSize = stageRecvPhase ((rank + stage) % worldSize) stage worldSize ↔
          Alternates rank stage worldSize)) ∧
      ∀ (α : Type) (cast : Dtype → Dtype → α → α) (u : ℕ → ColocateUpdate) (memory : ℕ → Memory α)
        (prepared : ℕ → List (List BuiltOp) × Memory α), 0 < worldSize → StagedFamily worldSize u →
        (∀ a < worldSize, preparePhases (u a) cast (memory a) = .ok (prepared a)) →
          (NeverStuck (Finset.range worldSize) (stagedPrograms worldSize (fun a => (prepared a).1)) ↔
            AllAlternate worldSize u) := by
  refine ⟨?_, ?_⟩
  · intro stage hpos hstage rank _
    have hcolours := partition_ne_iff hpos hstage rank
    exact ⟨hcolours, (stagePhase_eq_iff rank _ stage worldSize).trans hcolours⟩
  · intro α cast u memory prepared hpos hu h
    exact neverStuck_staged_iff hu hpos h

/-- Rank `a` of three sends a row to the next rank. -/
def ringUpdate (a : ℕ) : ColocateUpdate where
  sendTransferPlan := ⟨Dict.ofList [((a + 1) % 3, [rowOperation (3 + a) ((a + 1) % 3) 0])]⟩
  recvTransferPlan := ⟨Dict.ofList [(3 + (a + 2) % 3, [rowOperation (3 + (a + 2) % 3) a 0])]⟩
  trainToInfer := Dict.ofList [(3, 0), (4, 1), (5, 2)]
  inferToTrain := Dict.ofList [(0, 3), (1, 4), (2, 5)]
  transferRank := a
  worldSize := 3
  sendParameters := Dict.ofList [("w", ⟨0, 0, [⟨4, 1⟩, ⟨1, 1⟩], .float32⟩)]
  recvParameters := Dict.ofList [("w", ⟨0, 0, [⟨4, 1⟩, ⟨1, 1⟩], .float32⟩)]

theorem ringUpdate_family : StagedFamily 3 ringUpdate where
  rank := fun _ _ => rfl
  size := fun _ _ => rfl
  agree := by decide

theorem twoPhasePartition_ring : ∃ prepared : ℕ → List (List BuiltOp) × Memory ℕ,
    (∀ a < 3, preparePhases (ringUpdate a) (fun _ _ => id) (rowMemory a) = .ok (prepared a)) ∧
      ¬ NeverStuck (Finset.range 3) (stagedPrograms 3 (fun a => (prepared a).1)) := by
  have hrank : ∀ a, ∃ p, a < 3 → preparePhases (ringUpdate a) (fun _ _ => id) (rowMemory a) = .ok p := by
    intro a
    by_cases ha : a < 3
    · interval_cases a <;> exact ⟨_, fun _ => rfl⟩
    · exact ⟨⟨[], rowMemory a⟩, fun ha' => absurd ha' ha⟩
  choose prepared hprepared using hrank
  refine ⟨prepared, hprepared, ?_⟩
  rw [(twoPhasePartition_iff 3).2 ℕ _ ringUpdate rowMemory prepared (by decide) ringUpdate_family hprepared]
  intro halternate
  exact absurd (halternate 1 (by decide) (by decide) 2 (by decide) (by decide)) (by decide)

theorem twoPhasePartition_threeRanks :
    computeTwoPhasePartition 2 1 3 = computeTwoPhasePartition ((2 + 1) % 3) 1 3 := by decide

end Awex
