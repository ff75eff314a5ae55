import Awex.MappingOperations
import Awex.ReplicaSpec

namespace Awex

def scratchLength (replica : ParameterReplicaMeta) : ℕ :=
  match replica.shards with
  | [] => 0
  | shard :: _ => shard.shape.length

theorem createShardOffsetForReplica_eq (b : TransferPlanBuilder) (replica : ParameterReplicaMeta)
    (engineRank : ℕ) (isInfer : Bool) (g : Option ℕ) (scratch : List ScratchCell)
    (hs : scratch ≠ []) (hne : replica.shards ≠ []) :
    createShardOffsetForReplica b replica engineRank isInfer g scratch =
      shardOffsets b engineRank isInfer g scratch replica.shards := by
  unfold createShardOffsetForReplica scratchOrFresh
  simp only [hs, hne, ne_eq, not_false_eq_true, ↓reduceIte, bind, Except.bind]
  cases shardOffsets b engineRank isInfer g scratch replica.shards <;> rfl

theorem createShardOffsetForReplica_valid (b : TransferPlanBuilder) (replica : ParameterReplicaMeta)
    (engineRank : ℕ) (isInfer : Bool) (g : Option ℕ) (scratch : List ScratchCell)
    (he : isInfer = false → engineRank = 0) (r : List ShardOffset × List ScratchCell)
    (h : createShardOffsetForReplica b replica engineRank isInfer g scratch = .ok r) :
    replica.shards ≠ [] ∧ ∀ s ∈ replica.shards, ValidShard s := by
  rw [createShardOffsetForReplica, Except.bind_eq_ok] at h
  obtain ⟨cells, -, h⟩ := h
  by_cases hne : replica.shards = []
  · simp [hne] at h
  rw [if_neg hne] at h
  obtain ⟨out, hout, -⟩ := Except.bind_eq_ok.mp h
  exact ⟨hne, (shardOffsets_post b engineRank isInfer g cells replica.shards he out hout).1⟩

def keptInference (b : TransferPlanBuilder) (g : Option ℕ) (engineRank : ℕ)
    (replica : ParameterReplicaMeta) : List PlacedShard :=
  keptShards b engineRank true (g.filter (· < b.inferWorldSize)) replica.shards

def keptTraining (b : TransferPlanBuilder) (g : Option ℕ) (replica : ParameterReplicaMeta) :
    List PlacedShard :=
  keptShards b 0 false (g.filter (b.inferWorldSize ≤ ·)) replica.shards

def replicaItems (b : TransferPlanBuilder) (g : Option ℕ) (engineRank : ℕ)
    (inference training : ParameterReplicaMeta) :
    List (PlacedShard × PlacedShard × List ℕ × List ℕ) :=
  (keptInference b g engineRank inference).flatMap (fun p =>
    (keptTraining b g training).filterMap (overlapItem p))

structure ReplicaOk (b : TransferPlanBuilder) (g : Option ℕ) (engineRank : ℕ)
    (inference training : ParameterReplicaMeta) : Prop where
  inference_ne : inference.shards ≠ []
  training_ne : training.shards ≠ []
  inference_valid : ∀ s ∈ inference.shards, ValidShard s
  training_valid : ∀ s ∈ training.shards, ValidShard s
  inference_fits : ∀ p ∈ keptInference b g engineRank inference,
    p.1.globalOffset.length ≤ scratchLength training
  training_fits : ∀ q ∈ keptTraining b g training, q.1.globalOffset.length ≤ scratchLength training
  overlaps : ∀ p ∈ keptInference b g engineRank inference, ∀ q ∈ keptTraining b g training,
    ∃ o, shardOverlap p.1 q.1 = .ok o
  items : ∀ i ∈ replicaItems b g engineRank inference training, ItemOk b (scratchLength training) i

theorem scratchLength_pos (replica : ParameterReplicaMeta) (hne : replica.shards ≠ [])
    (hv : ∀ s ∈ replica.shards, ValidShard s) : 0 < scratchLength replica := by
  obtain ⟨shard, shards, hs⟩ := List.exists_cons_of_ne_nil hne
  have hshard := hv shard (by simp [hs])
  simpa [scratchLength, hs, ← hshard.dims] using List.length_pos_iff.mpr hshard.offset_ne_nil

theorem mem_keptShards {b : TransferPlanBuilder} {engineRank : ℕ} {isInfer : Bool} {g : Option ℕ}
    {shards : List ParameterShardMeta} {p : PlacedShard} :
    p ∈ keptShards b engineRank isInfer g shards ↔ p.1 ∈ shards ∧
      p.2 = shardRank b engineRank isInfer p.1 ∧ isOtherRank g p.2 = false := by
  obtain ⟨s, k⟩ := p
  simp only [keptShards, List.mem_filter, List.mem_map, Prod.mk.injEq, Bool.not_eq_eq_eq_not,
    Bool.not_true]
  constructor
  · rintro ⟨⟨s', hs, rfl, rfl⟩, hg⟩
    exact ⟨hs, rfl, hg⟩
  · rintro ⟨hs, rfl, hg⟩
    exact ⟨⟨s, hs, rfl, rfl⟩, hg⟩

theorem mem_replicaItems {b : TransferPlanBuilder} {g : Option ℕ} {engineRank : ℕ}
    {inference training : ParameterReplicaMeta}
    {i : PlacedShard × PlacedShard × List ℕ × List ℕ} :
    i ∈ replicaItems b g engineRank inference training ↔ i.1 ∈ keptInference b g engineRank inference ∧
      i.2.1 ∈ keptTraining b g training ∧ shardOverlap i.1.1 i.2.1.1 = .ok (some i.2.2) := by
  simp only [replicaItems, List.mem_flatMap, List.mem_filterMap, overlapItem_eq_some]
  constructor
  · rintro ⟨p, hp, q, hq, rfl, rfl, ho⟩
    exact ⟨hp, hq, ho⟩
  · rintro ⟨hp, hq, ho⟩
    exact ⟨i.1, hp, i.2.1, hq, rfl, rfl, ho⟩

theorem initialScratch_eq (training : ParameterReplicaMeta) (hne : training.shards ≠ []) :
    initialScratch training = .ok (List.replicate (scratchLength training) .none) := by
  obtain ⟨shard, shards, hs⟩ := List.exists_cons_of_ne_nil hne
  simp [initialScratch, scratchLength, hs]

theorem replicaItems_valid {b : TransferPlanBuilder} {g : Option ℕ} {engineRank : ℕ}
    {inference training : ParameterReplicaMeta} (hi : ∀ s ∈ inference.shards, ValidShard s)
    (ht : ∀ s ∈ training.shards, ValidShard s) :
    ∀ i ∈ replicaItems b g engineRank inference training, ValidShard i.1.1 ∧ ValidShard i.2.1.1 := by
  intro i hmem
  obtain ⟨hp, hq, -⟩ := mem_replicaItems.mp hmem
  exact ⟨hi _ (mem_keptShards.mp hp).1, ht _ (mem_keptShards.mp hq).1⟩

theorem buildReplicaPlan_sound (b : TransferPlanBuilder) (g : Option ℕ) (engineRank : ℕ)
    (inference training : ParameterReplicaMeta) (plan : List CommunicationOperation)
    (h : buildReplicaPlan b g engineRank inference training = .ok plan) :
    ReplicaOk b g engineRank inference training ∧
      plan = (replicaItems b g engineRank inference training).map itemOperation := by
  obtain ⟨scratch, hscratch, hrest⟩ := Except.bind_eq_ok.mp h
  obtain ⟨⟨infMap, mid⟩, hinf, hrest'⟩ := Except.bind_eq_ok.mp hrest
  obtain ⟨⟨trainMap, out⟩, htrain, hrest''⟩ := Except.bind_eq_ok.mp hrest'
  obtain ⟨regions, hregions, hplan⟩ := Except.bind_eq_ok.mp hrest''
  obtain ⟨hine, hiv⟩ := createShardOffsetForReplica_valid b inference engineRank true _ _
    (by simp) _ hinf
  obtain ⟨htne, htv⟩ := createShardOffsetForReplica_valid b training 0 false _ _ (by simp) _ htrain
  have hpos := scratchLength_pos training htne htv
  rw [initialScratch_eq training htne] at hscratch
  have hlen : scratch.length = scratchLength training := by simp [← Except.ok.inj hscratch]
  have hs : scratch ≠ [] := List.length_pos_iff.mp (hlen ▸ hpos)
  rw [createShardOffsetForReplica_eq b inference _ _ _ _ hs hine] at hinf
  obtain ⟨-, hifit, hmid, hidesc⟩ := shardOffsets_post b engineRank true _ scratch _ (by simp) _ hinf
  have hm : mid ≠ [] := List.length_pos_iff.mp (hmid ▸ hlen ▸ hpos)
  rw [createShardOffsetForReplica_eq b training _ _ _ _ hm htne] at htrain
  obtain ⟨-, htfit, hout, htdesc⟩ := shardOffsets_post b 0 false _ mid _ (by simp) _ htrain
  obtain ⟨hover, hfor⟩ := findOverlappingRegions_post infMap trainMap _ _ hidesc
    (fun p hp => hiv p.1 (mem_keptShards.mp hp).1) htdesc
    (fun q hq => htv q.1 (mem_keptShards.mp hq).1) regions hregions
  obtain ⟨hitems, hops⟩ := (buildRegions_ok_iff b out _ (hout.trans (hmid.trans hlen)) hpos regions
    _ hfor (replicaItems_valid (b := b) (g := g) hiv htv) plan).mp hplan
  exact ⟨⟨hine, htne, hiv, htv, hlen ▸ hifit, (hmid.trans hlen) ▸ htfit, hover, hitems⟩, hops⟩

theorem buildReplicaPlan_complete (b : TransferPlanBuilder) (g : Option ℕ) (engineRank : ℕ)
    (inference training : ParameterReplicaMeta) (h : ReplicaOk b g engineRank inference training) :
    buildReplicaPlan b g engineRank inference training =
      .ok ((replicaItems b g engineRank inference training).map itemOperation) := by
  have hpos := scratchLength_pos training h.training_ne h.training_valid
  obtain ⟨scratch, hscratch, hlen⟩ : ∃ scratch, initialScratch training = .ok scratch ∧
      scratch.length = scratchLength training :=
    ⟨_, initialScratch_eq training h.training_ne, List.length_replicate⟩
  have hs : scratch ≠ [] := List.length_pos_iff.mp (hlen ▸ hpos)
  obtain ⟨⟨infMap, mid⟩, hinf⟩ := shardOffsets_isOk b engineRank true
    (g.filter (· < b.inferWorldSize)) scratch inference.shards (by simp) h.inference_valid
    (hlen ▸ h.inference_fits)
  obtain ⟨-, -, hmid, hidesc⟩ := shardOffsets_post b engineRank true _ _ _ (by simp) _ hinf
  have hm : mid ≠ [] := List.length_pos_iff.mp (hmid ▸ hlen ▸ hpos)
  obtain ⟨⟨trainMap, out⟩, htrain⟩ := shardOffsets_isOk b 0 false
    (g.filter (b.inferWorldSize ≤ ·)) mid training.shards (by simp) h.training_valid
    ((hmid.trans hlen) ▸ h.training_fits)
  obtain ⟨-, -, hout, htdesc⟩ := shardOffsets_post b 0 false _ mid _ (by simp) _ htrain
  have hiv : ∀ p ∈ keptInference b g engineRank inference, ValidShard p.1 :=
    fun p hp => h.inference_valid p.1 (mem_keptShards.mp hp).1
  have htv : ∀ q ∈ keptTraining b g training, ValidShard q.1 :=
    fun q hq => h.training_valid q.1 (mem_keptShards.mp hq).1
  obtain ⟨regions, hregions⟩ := findOverlappingRegions_isOk infMap trainMap _ _ hidesc hiv htdesc
    htv h.overlaps
  obtain ⟨-, hfor⟩ := findOverlappingRegions_post infMap trainMap _ _ hidesc hiv htdesc htv
    regions hregions
  have hplan := (buildRegions_ok_iff b out _ (hout.trans (hmid.trans hlen)) hpos regions _ hfor
    (replicaItems_valid h.inference_valid h.training_valid) _).mpr ⟨h.items, rfl⟩
  rw [← createShardOffsetForReplica_eq b inference _ _ _ _ hs h.inference_ne] at hinf
  rw [← createShardOffsetForReplica_eq b training _ _ _ _ hm h.training_ne] at htrain
  exact Except.bind_eq_ok.mpr ⟨_, hscratch, Except.bind_eq_ok.mpr ⟨_, hinf,
    Except.bind_eq_ok.mpr ⟨_, htrain, Except.bind_eq_ok.mpr ⟨regions, hregions, hplan⟩⟩⟩⟩

end Awex
