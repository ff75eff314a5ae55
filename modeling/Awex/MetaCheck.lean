import Awex.MappingSpec

namespace Awex

inductive CheckError where
  | keyMismatch (train infer : ℕ) (missingOnInfer extraOnInfer unsupportedExtraOnInfer : List String)
      (strict : Bool)
  | wrongNumel (paramName : String) (infer train : ℕ)
  | wrongShape (paramName : String) (infer train : List ℕ)
  | wrongDtype (paramName : String) (infer train : Dtype)
  | wrongTpSize (paramName : String) (inferTpSize trainTpSize : ℕ)
  | indexError
  | zeroDivision
  deriving DecidableEq, Repr

/-- Without `raise_exception` a mismatch is only logged. -/
def reportMismatch (raiseException : Bool) (mismatch : Bool) (e : CheckError) : Except CheckError Unit :=
  if mismatch ∧ raiseException then .error e else .ok ()

/-- `len(param_meta.replicas[0].shards)`. -/
def firstReplicaTpSize (paramMeta : ParameterMeta) : Except CheckError ℕ :=
  match paramMeta.replicas with
  | [] => .error .indexError
  | replica :: _ => .ok replica.shards.length

def checkTpSizes (raiseException : Bool) (paramName : String) (inferTpSize trainTpSize : ℕ) :
    Except CheckError Unit :=
  let maxTp := max inferTpSize trainTpSize
  let minTp := min inferTpSize trainTpSize
  if minTp = 0 then .error .zeroDivision
  else reportMismatch raiseException (maxTp % minTp ≠ 0) (.wrongTpSize paramName inferTpSize trainTpSize)

def checkParamMeta (raiseException : Bool) (paramName : String)
    (inferParamMeta trainParamMeta : ParameterMeta) : Except CheckError Unit := do
  reportMismatch raiseException (inferParamMeta.globalNumel ≠ trainParamMeta.globalNumel)
    (.wrongNumel paramName inferParamMeta.globalNumel trainParamMeta.globalNumel)
  reportMismatch raiseException (inferParamMeta.globalShape ≠ trainParamMeta.globalShape)
    (.wrongShape paramName inferParamMeta.globalShape trainParamMeta.globalShape)
  reportMismatch raiseException (inferParamMeta.dtype ≠ trainParamMeta.dtype)
    (.wrongDtype paramName inferParamMeta.dtype trainParamMeta.dtype)
  let inferTpSize ← firstReplicaTpSize inferParamMeta
  let trainTpSize ← firstReplicaTpSize trainParamMeta
  checkTpSizes raiseException paramName inferTpSize trainTpSize

def checkKeys (inferKeys trainKeys : List String) (raiseException strictKeyMatch : Bool) :
    Except CheckError Unit :=
  let missingOnInfer := trainKeys.filter (· ∉ inferKeys)
  let extraOnInfer := inferKeys.filter (· ∉ trainKeys)
  let unsupportedExtraOnInfer := extraOnInfer.filter
    (fun key => ¬ isAllowedInferOnlyAlias key inferKeys trainKeys)
  let mismatched := if strictKeyMatch then missingOnInfer ≠ [] ∨ extraOnInfer ≠ []
    else missingOnInfer ≠ [] ∨ unsupportedExtraOnInfer ≠ []
  reportMismatch raiseException mismatched (.keyMismatch trainKeys.length inferKeys.length
    (sorted missingOnInfer) (sorted extraOnInfer) (sorted unsupportedExtraOnInfer) strictKeyMatch)

/-- The common names are walked in the order of a set, which is left to the source; another order
can only change which of several mismatches is the one that is raised. -/
def checkTrainInferParamsMeta (trainingParamsMeta inferParametersMeta : List ParameterMeta)
    (raiseException strictKeyMatch : Bool) : Except CheckError Unit := do
  let inferMeta := metaDict inferParametersMeta
  let trainMeta := metaDict trainingParamsMeta
  checkKeys inferMeta.keys trainMeta.keys raiseException strictKeyMatch
  let _ ← (commonParams inferMeta.keys trainMeta.keys).mapM (fun paramName =>
    match inferMeta.get? paramName, trainMeta.get? paramName with
    | some inferParamMeta, some trainParamMeta =>
      checkParamMeta raiseException paramName inferParamMeta trainParamMeta
    | _, _ => .error .indexError)
  .ok ()

structure Compatible (im tm : ParameterMeta) : Prop where
  numel : im.globalNumel = tm.globalNumel
  shape : im.globalShape = tm.globalShape
  dtype : im.dtype = tm.dtype
  tpSizes : ∃ n m, firstReplicaTpSize im = .ok n ∧ firstReplicaTpSize tm = .ok m ∧ 0 < min n m ∧
    min n m ∣ max n m

theorem reportMismatch_ok_iff {mismatch : Bool} {e : CheckError} {u : Unit} :
    reportMismatch true mismatch e = .ok u ↔ mismatch = false := by
  unfold reportMismatch
  cases mismatch <;> simp

theorem checkTpSizes_ok_iff (paramName : String) (n m : ℕ) :
    checkTpSizes true paramName n m = .ok () ↔ 0 < min n m ∧ min n m ∣ max n m := by
  unfold checkTpSizes
  by_cases h : min n m = 0
  · simp [h]
  · rw [if_neg h, reportMismatch_ok_iff, Nat.dvd_iff_mod_eq_zero]
    simp [Nat.pos_of_ne_zero h]

theorem checkParamMeta_ok_iff (paramName : String) (im tm : ParameterMeta) :
    checkParamMeta true paramName im tm = .ok () ↔ Compatible im tm := by
  simp only [checkParamMeta, Except.bind_eq_ok, reportMismatch_ok_iff, checkTpSizes_ok_iff, ne_eq,
    decide_eq_false_iff_not, not_not]
  constructor
  · rintro ⟨-, hnumel, -, hshape, -, hdtype, n, hn, m, hm, htp⟩
    exact ⟨hnumel, hshape, hdtype, n, m, hn, hm, htp⟩
  · rintro ⟨hnumel, hshape, hdtype, n, m, hn, hm, htp⟩
    exact ⟨(), hnumel, (), hshape, (), hdtype, n, hn, m, hm, htp⟩

theorem checkKeys_ok_iff {b : TransferPlanBuilder} {inferKeys trainKeys : List String} {u : Unit} :
    checkKeys inferKeys trainKeys true b.strictParamKeyMatch = .ok u ↔
      keyMismatch b inferKeys trainKeys = none := by
  unfold checkKeys keyMismatch
  rw [reportMismatch_ok_iff, decide_eq_false_iff_not]
  dsimp only
  split_ifs <;> simp_all

theorem mem_commonParams {infer train : List ParameterMeta} {name : String} :
    name ∈ commonParams (metaDict infer).keys (metaDict train).keys ↔
      ∃ im tm, (metaDict infer).get? name = some im ∧ (metaDict train).get? name = some tm := by
  rw [← mem_plannedParams, plannedParams, sorted, List.mem_insertionSort]

theorem checkTrainInferParamsMeta_ok_iff (b : TransferPlanBuilder) (infer train : List ParameterMeta) :
    checkTrainInferParamsMeta train infer true b.strictParamKeyMatch = .ok () ↔
      keyMismatch b (metaDict infer).keys (metaDict train).keys = none ∧
        ∀ name im tm, (metaDict infer).get? name = some im → (metaDict train).get? name = some tm →
          Compatible im tm := by
  simp only [checkTrainInferParamsMeta, Except.bind_eq_ok, checkKeys_ok_iff, exists_const, and_true]
  refine and_congr_right (fun _ => ?_)
  rw [Except.mapM_isOk]
  constructor
  · intro h name im tm hi ht
    obtain ⟨u, hu⟩ := h name (mem_commonParams.mpr ⟨im, tm, hi, ht⟩)
    simp only [hi, ht] at hu
    exact (checkParamMeta_ok_iff name im tm).mp hu
  · intro h name hname
    obtain ⟨im, tm, hi, ht⟩ := mem_commonParams.mp hname
    refine ⟨(), ?_⟩
    simp only [hi, ht]
    exact (checkParamMeta_ok_iff name im tm).mpr (h name im tm hi ht)

end Awex
