import Awex.ConvertedNames
import Awex.Library.DictRestriction
import Awex.PlainOrder

namespace Awex

namespace WeightsWriter

variable {τ : Type} (w : WeightsWriter τ)

def embedTokens : Name := "model.embed_tokens.weight"

def lmHead : Name := "lm_head.weight"

def TiesHead : Prop := w.tieWordEmbeddings ∧ w.rankInfo.ppRank + 1 = w.rankInfo.ppSize

instance : Decidable w.TiesHead := inferInstanceAs (Decidable (_ ∧ _))

/-- The head is to be made from the embedding, which the filter has dropped. -/
def LosesLmHead (required : List Name) : Prop :=
  w.TiesHead ∧ lmHead ∈ required ∧ embedTokens ∉ required ∧ (∃ p ∈ w.parameters, isWordEmbedding p.2.1) ∧
    ∀ p ∈ w.parameters, ¬ isOutputLayer p.2.1

section Loop

variable {required : List Name} {state : Dict Name τ × AProjCache τ}

theorem isRequired_none (hfName : Name) : isRequired none hfName := nofun

theorem isRequired_some {hfName : Name} : isRequired (some required) hfName ↔ hfName ∈ required := by
  constructor
  · intro h
    exact h required rfl
  · rintro h names ⟨⟩
    exact h

theorem addConverted_none (converted : Dict Name τ) (hfParams : List (Name × τ)) :
    addConverted none converted hfParams = hfParams.foldl (fun converted e => converted.set e.1 e.2) converted := rfl

def Restricted (required : List Name) (filtered full : Dict Name τ × AProjCache τ) : Prop :=
  filtered.2 = full.2 ∧ Dict.Restriction (isRequired (some required)) filtered.1 full.1

theorem restriction_isRequired_iff {d full : Dict Name τ} :
    Dict.Restriction (isRequired (some required)) d full ↔ Dict.Restriction (· ∈ required) d full := by
  simp only [Dict.Restriction, isRequired_some]

theorem convertStep_restricted {filtered full : Dict Name τ × AProjCache τ} (h : Restricted required filtered full)
    (parameter : ℕ × Name × τ) : Except.Both (Restricted required)
      (w.convertStep (some required) filtered parameter) (w.convertStep none full parameter) := by
  obtain ⟨hcache, hdict⟩ := h
  unfold convertStep
  rw [hcache]
  dsimp only
  cases w.weightConverter.convertParam parameter.2.1 parameter.2.2 parameter.1 full.2 with
  | error e => exact .error e
  | ok result =>
    refine .ok ⟨rfl, ?_⟩
    rw [addConverted_none]
    exact hdict.foldl result.1

theorem loop_restricted (required : List Name) (cache : AProjCache τ) : Except.Both (Restricted required)
    (w.parameters.foldlM (w.convertStep (some required)) (Dict.empty, cache))
    (w.parameters.foldlM (w.convertStep none) (Dict.empty, cache)) :=
  Except.Both.foldlM (fun _ _ parameter h => w.convertStep_restricted h parameter)
    ⟨rfl, Dict.Restriction.empty⟩ w.parameters

theorem loop_headNames {cache : AProjCache τ}
    (h : w.parameters.foldlM (w.convertStep none) (Dict.empty, cache) = .ok state) :
    HeadNames (∃ p ∈ w.parameters, isWordEmbedding p.2.1) (∃ p ∈ w.parameters, isOutputLayer p.2.1)
      state.1.keys := by
  apply Except.foldlM_induction (fun done (state : Dict Name τ × AProjCache τ) =>
    HeadNames (∃ p ∈ done, isWordEmbedding p.2.1) (∃ p ∈ done, isOutputLayer p.2.1) state.1.keys) h
  · constructor
    · exact iff_of_false List.not_mem_nil (by simp)
    · exact iff_of_false List.not_mem_nil (by simp)
  · intro done parameter s s' _ hs hstep
    obtain ⟨⟨hfParams, cache'⟩, hconvert, hstep⟩ := Except.bind_eq_ok.mp hstep
    obtain rfl := Except.ok.inj hstep
    have hnames := w.weightConverter.convertParam_headNames hconvert
    constructor
    · rw [addConverted_none, Dict.mem_keys_foldl_set, hs.embedding, hnames.embedding]
      simp only [List.mem_append, List.mem_singleton, or_and_right, exists_or, exists_eq_left]
    · rw [addConverted_none, Dict.mem_keys_foldl_set, hs.head, hnames.head]
      simp only [List.mem_append, List.mem_singleton, or_and_right, exists_or, exists_eq_left]

end Loop

section Tie

variable {required : List Name} {d filtered full : Dict Name τ}

theorem tieLmHead_none (names : Option (List Name)) (h : d.get? embedTokens = none) : w.tieLmHead names d = d := by
  unfold tieLmHead
  unfold embedTokens at h
  rw [h]

theorem tieLmHead_some (names : Option (List Name)) {embedding : τ} (h : d.get? embedTokens = some embedding) :
    w.tieLmHead names d =
      if w.TiesHead ∧ lmHead ∉ d.keys ∧ isRequired names lmHead then d.set lmHead embedding else d := by
  unfold tieLmHead
  unfold embedTokens at h
  rw [h]
  simp only [TiesHead, and_assoc]
  rfl

theorem tieLmHead_keep (names : Option (List Name)) (h : ¬ (w.TiesHead ∧ lmHead ∉ d.keys ∧ isRequired names lmHead)) :
    w.tieLmHead names d = d := by
  cases hget : d.get? embedTokens with
  | none => exact w.tieLmHead_none names hget
  | some embedding => rw [w.tieLmHead_some names hget, if_neg h]

theorem tieLmHead_restriction_iff (h : Dict.Restriction (· ∈ required) filtered full) :
    Dict.Restriction (· ∈ required) (w.tieLmHead (some required) filtered) (w.tieLmHead none full) ↔
      ¬ (w.TiesHead ∧ lmHead ∈ required ∧ embedTokens ∉ required ∧ embedTokens ∈ full.keys ∧ lmHead ∉ full.keys) := by
  by_cases hties : w.TiesHead ∧ lmHead ∉ full.keys
  swap
  · rw [w.tieLmHead_keep none (fun hnone => hties ⟨hnone.1, hnone.2.1⟩)]
    rw [w.tieLmHead_keep (some required)]
    · exact iff_of_true h (fun hlost => hties ⟨hlost.1, hlost.2.2.2.2⟩)
    · rintro ⟨hhead, hmissing, hrequired⟩
      apply hties ⟨hhead, fun hmem => hmissing ((h.mem_keys lmHead).mpr ⟨isRequired_some.mp hrequired, hmem⟩)⟩
  obtain ⟨hhead, hmissing⟩ := hties
  have hmissing' : lmHead ∉ filtered.keys := fun hmem => hmissing ((h.mem_keys lmHead).mp hmem).2
  cases hget : full.get? embedTokens with
  | none =>
    have hget' : filtered.get? embedTokens = none := by
      rw [h embedTokens, hget, ite_self]
    have hkeys : embedTokens ∉ full.keys := by
      rw [Dict.mem_keys, hget]
      exact Bool.false_ne_true
    rw [w.tieLmHead_none none hget, w.tieLmHead_none (some required) hget']
    exact iff_of_true h (fun hlost => hkeys hlost.2.2.2.1)
  | some embedding =>
    have hkeys : embedTokens ∈ full.keys := by
      rw [Dict.mem_keys, hget]
      rfl
    rw [w.tieLmHead_some none hget, if_pos ⟨hhead, hmissing, isRequired_none lmHead⟩]
    by_cases hrequired : lmHead ∈ required
    · by_cases hembedding : embedTokens ∈ required
      · have hget' : filtered.get? embedTokens = some embedding := by
          rw [h embedTokens, if_pos hembedding, hget]
        rw [w.tieLmHead_some (some required) hget', if_pos ⟨hhead, hmissing', isRequired_some.mpr hrequired⟩]
        exact iff_of_true (h.set hrequired embedding) (fun hlost => hlost.2.2.1 hembedding)
      · have hget' : filtered.get? embedTokens = none := by
          rw [h embedTokens, if_neg hembedding]
        rw [w.tieLmHead_none (some required) hget']
        refine iff_of_false ?_ (not_not_intro ⟨hhead, hrequired, hembedding, hkeys, hmissing⟩)
        intro hrestriction
        apply hmissing'
        rw [hrestriction.mem_keys lmHead, Dict.mem_keys, Dict.get?_set, if_pos rfl]
        exact ⟨hrequired, rfl⟩
    · rw [w.tieLmHead_keep (some required) (fun hkept => hrequired (isRequired_some.mp hkept.2.2))]
      exact iff_of_true (h.skip hrequired embedding) (fun hlost => hrequired hlost.2.1)

end Tie

/-- What a transfer asks for is what the whole conversion has under those names, unless the head is derived from an
embedding that is not asked for. -/
theorem convertParameters_restriction_iff {required : List Name} (hrequired : required ≠ [])
    (cache : AProjCache τ) :
    (∀ e, w.convertParameters none cache = .error e → w.convertParameters (some required) cache = .error e) ∧
    ∀ full cache', w.convertParameters none cache = .ok (full, cache') →
      ((∃ filtered, w.convertParameters (some required) cache = .ok (filtered, cache') ∧
        ∀ hfName, filtered.get? hfName = if hfName ∈ required then full.get? hfName else none) ↔
      ¬ w.LosesLmHead required) := by
  have hloop := w.loop_restricted required cache
  have hfilter : (some required).filter (· ≠ []) = some required := by
    simpa using hrequired
  unfold convertParameters
  rw [hfilter, Option.filter_none]
  dsimp only
  generalize hfull : w.parameters.foldlM (w.convertStep none) (Dict.empty, cache) = full at hloop
  generalize w.parameters.foldlM (w.convertStep (some required)) (Dict.empty, cache) = filtered at hloop
  cases hloop with
  | error e =>
    simp only [Except.error_bind]
    refine ⟨fun _ h => h, ?_⟩
    intro full cache' h
    cases h
  | @ok filtered full hrestricted =>
    obtain ⟨hcache, hdict⟩ := hrestricted
    rw [restriction_isRequired_iff] at hdict
    simp only [Except.ok_bind]
    constructor
    · intro e h
      cases h
    rintro tied cache' h
    obtain ⟨rfl, rfl⟩ := Prod.mk.inj (Except.ok.inj h)
    have hnames := w.loop_headNames hfull
    have hlost : (w.TiesHead ∧ lmHead ∈ required ∧ embedTokens ∉ required ∧ embedTokens ∈ full.1.keys ∧
        lmHead ∉ full.1.keys) ↔ w.LosesLmHead required := by
      unfold LosesLmHead embedTokens lmHead
      rw [hnames.embedding, hnames.head]
      simp only [not_exists, not_and]
    rw [← hlost, ← w.tieLmHead_restriction_iff hdict]
    constructor
    · rintro ⟨tied, h, htied⟩
      obtain ⟨rfl, -⟩ := Prod.mk.inj (Except.ok.inj h)
      exact htied
    · intro h
      exact ⟨_, by rw [hcache], h⟩

/-- One stage with tied embeddings: the embedding is there, an output layer is not. -/
def tiedWriter : WeightsWriter (List (Vector ℤ 1)) where
  model := [⟨Dict.ofList [("embedding.word_embeddings.weight", [#v[3]]),
    ("decoder.final_layernorm.weight", [#v[5]])], Dict.empty⟩]
  weightConverter := .linearMla (rowConverter ℤ 1 1 1 1 0)
  tieWordEmbeddings := true
  rankInfo := rowRankInfo 1 1

theorem not_restriction_tiedWriter : ∃ full filtered,
    tiedWriter.convertParameters none AProjCache.empty = .ok full ∧
    tiedWriter.convertParameters (some ["lm_head.weight"]) AProjCache.empty = .ok filtered ∧
    ¬ ∀ hfName, filtered.1.get? hfName =
      if hfName ∈ (["lm_head.weight"] : List Name) then full.1.get? hfName else none := by
  have hmade : (tiedWriter.convertParameters none AProjCache.empty).map (fun result => result.1.get? lmHead) =
      .ok (some [#v[3]]) := by
    decide +kernel
  have hlost : (tiedWriter.convertParameters (some ["lm_head.weight"]) AProjCache.empty).map
      (fun result => result.1.get? lmHead) = .ok none := by
    decide +kernel
  obtain ⟨full, hfull, hmade⟩ := Except.map_eq_ok.mp hmade
  obtain ⟨filtered, hfiltered, hlost⟩ := Except.map_eq_ok.mp hlost
  refine ⟨full, filtered, hfull, hfiltered, fun hrestriction => ?_⟩
  have hhead := hrestriction lmHead
  rw [hlost, hmade, if_pos (by decide)] at hhead
  cases hhead

theorem convertParameters_restriction_tiedWriter :
    (∀ e, tiedWriter.convertParameters none AProjCache.empty = .error e →
      tiedWriter.convertParameters (some [lmHead, embedTokens]) AProjCache.empty = .error e) ∧
    ∀ full cache', tiedWriter.convertParameters none AProjCache.empty = .ok (full, cache') →
      ((∃ filtered, tiedWriter.convertParameters (some [lmHead, embedTokens]) AProjCache.empty =
          .ok (filtered, cache') ∧
        ∀ hfName, filtered.get? hfName = if hfName ∈ [lmHead, embedTokens] then full.get? hfName else none) ↔
      ¬ tiedWriter.LosesLmHead [lmHead, embedTokens]) :=
  tiedWriter.convertParameters_restriction_iff (List.cons_ne_nil _ _) AProjCache.empty

end WeightsWriter

end Awex
