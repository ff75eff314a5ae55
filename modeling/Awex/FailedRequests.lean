import Awex.MetaHandlers
import Awex.Library.ExceptList

namespace Awex

variable {Obj Json : Type} {rt : Runtime Obj Json} {server : ServerState Obj} {key : String}

/-- The request adds an object that no set can hold, under a key that is not there. -/
def LeavesEmptySet (rt : Runtime Obj Json) (server : ServerState Obj) (request : Request) : Prop :=
  ∃ key body obj, request = .addObjectToSet key body ∧ (rt.readBody body >>= rt.fromBinary) = .ok obj ∧
    rt.hashable obj = false ∧ server.get? key = none

@[simp] theorem ServerState.get?_put (server : ServerState Obj) (key key' : String) (value : StoredValue Obj) :
    (server.put key value).get? key' = if key = key' then some value else server.get? key' :=
  server.storage.get?_set key key' value

@[simp] theorem ServerState.put_put (server : ServerState Obj) (key : String) (value value' : StoredValue Obj) :
    (server.put key value).put key value' = server.put key value' := by
  simp [put]

theorem ServerState.put_ne_self (h : server.get? key = none) (value : StoredValue Obj) :
    server.put key value ≠ server := by
  intro heq
  have hget := server.get?_put key key value
  rw [heq, h, if_pos rfl] at hget
  cases hget

theorem deleteHandler_unchanged (h : (deleteHandler rt server key).2.Failed) :
    (deleteHandler rt server key).1 = server := by
  unfold deleteHandler at h ⊢
  cases hdelete : server.delete key with
  | ok server' => simp [hdelete, Response.Failed] at h
  | error e => cases e <;> rfl

theorem putJsonHandler_unchanged {body : Bytes} (h : (putJsonHandler rt server key body).2.Failed) :
    (putJsonHandler rt server key body).1 = server := by
  unfold putJsonHandler at h ⊢
  cases hdata : rt.readBody body >>= rt.requestJson >>= rt.jsonDumps with
  | ok data => simp [hdata, Response.Failed] at h
  | error e => rfl

theorem addObjectToSetHandler_undecoded {body : Bytes} {e : ServerException}
    (h : (rt.readBody body >>= rt.fromBinary) = .error e) :
    addObjectToSetHandler rt server key body = (server, deserializeFailure e) := by
  rw [addObjectToSetHandler, h]

theorem addObjectToSetHandler_bytes {body data : Bytes} {obj : Obj}
    (h : (rt.readBody body >>= rt.fromBinary) = .ok obj) (hget : server.get? key = some (.bytes data)) :
    addObjectToSetHandler rt server key body =
      (server, deserializeFailure (.other "'bytes' object has no attribute 'add'")) := by
  simp [addObjectToSetHandler, h, addToSet, hget]

theorem addObjectToSetHandler_members {body : Bytes} {obj : Obj} {objects : Multiset Obj}
    (h : (rt.readBody body >>= rt.fromBinary) = .ok obj) (hget : server.get? key = some (.members objects)) :
    addObjectToSetHandler rt server key body =
      if rt.hashable obj then (server.put key (.members (rt.addMember obj objects)),
        .message ("Object stored for key '" ++ key ++ "'"))
      else (server, deserializeFailure (rt.unhashable obj)) := by
  by_cases hash : rt.hashable obj <;> simp [addObjectToSetHandler, h, addToSet, hget, hash]

theorem Runtime.addMember_of_mem (rt : Runtime Obj Json) {obj member : Obj} {objects : Multiset Obj}
    (hmem : member ∈ objects) (h : rt.sameMember member obj = true) : rt.addMember obj objects = objects := by
  rw [addMember, if_pos (Multiset.countP_pos.mpr ⟨member, hmem, h⟩)]

theorem Runtime.addMember_of_new (rt : Runtime Obj Json) {obj : Obj} {objects : Multiset Obj}
    (h : ∀ member ∈ objects, rt.sameMember member obj = false) : rt.addMember obj objects = obj ::ₘ objects := by
  rw [addMember, if_neg]
  rw [Multiset.countP_pos]
  rintro ⟨member, hmem, hsame⟩
  simp [h member hmem] at hsame

theorem addObjectToSetHandler_missing {body : Bytes} {obj : Obj}
    (h : (rt.readBody body >>= rt.fromBinary) = .ok obj) (hget : server.get? key = none) :
    addObjectToSetHandler rt server key body =
      if rt.hashable obj then (server.put key (.members {obj}), .message ("Object stored for key '" ++ key ++ "'"))
      else (server.put key (.members 0), deserializeFailure (rt.unhashable obj)) := by
  have hnew : rt.addMember obj 0 = {obj} := rt.addMember_of_new (by simp)
  by_cases hash : rt.hashable obj <;> simp [addObjectToSetHandler, h, addToSet, hget, hash, hnew]

theorem addObjectToSetHandler_unchanged_iff {body : Bytes} :
    ((addObjectToSetHandler rt server key body).2.Failed → (addObjectToSetHandler rt server key body).1 = server) ↔
      ¬ LeavesEmptySet rt server (.addObjectToSet key body) := by
  have hleaves : LeavesEmptySet rt server (.addObjectToSet key body) ↔
      ∃ obj, (rt.readBody body >>= rt.fromBinary) = .ok obj ∧ rt.hashable obj = false ∧ server.get? key = none := by
    constructor
    · rintro ⟨key', body', obj, heq, h⟩
      obtain ⟨rfl, rfl⟩ := Request.addObjectToSet.inj heq
      exact ⟨obj, h⟩
    · rintro ⟨obj, h⟩
      exact ⟨key, body, obj, rfl, h⟩
  rw [hleaves]
  cases hobj : (rt.readBody body >>= rt.fromBinary) with
  | error e => simp [addObjectToSetHandler_undecoded hobj]
  | ok obj =>
    cases hget : server.get? key with
    | none =>
      rw [addObjectToSetHandler_missing hobj hget]
      by_cases hash : rt.hashable obj
      · simp [hash, Response.Failed]
      · simp [hash, deserializeFailure, Response.Failed, ServerState.put_ne_self hget]
    | some value =>
      cases value with
      | bytes data => simp [addObjectToSetHandler_bytes hobj hget]
      | members objects =>
        rw [addObjectToSetHandler_members hobj hget]
        by_cases hash : rt.hashable obj <;> simp [hash, Response.Failed]

/-- A failed request changes nothing, except the one that leaves an empty set. -/
theorem failedRequest_unchanged_iff (rt : Runtime Obj Json) (server : ServerState Obj) (request : Request) :
    ((handle rt server request).2.Failed → (handle rt server request).1 = server) ↔
      ¬ LeavesEmptySet rt server request := by
  cases request with
  | addObjectToSet key body => exact addObjectToSetHandler_unchanged_iff
  | putBinary key body =>
    refine iff_of_true ?_ (by rintro ⟨_, _, _, heq, -⟩; cases heq)
    cases hdata : rt.readBody body with
    | ok data => simp [handle, putBinaryHandler, hdata, Response.Failed]
    | error e => simp [handle, putBinaryHandler, hdata]
  | putJson key body =>
    exact iff_of_true putJsonHandler_unchanged (by rintro ⟨_, _, _, heq, -⟩; cases heq)
  | delete key => exact iff_of_true deleteHandler_unchanged (by rintro ⟨_, _, _, heq, -⟩; cases heq)
  | allocateAutoGrowId =>
    exact iff_of_true (fun h => absurd h id) (by rintro ⟨_, _, _, heq, -⟩; cases heq)
  | getBinary key | getJson key | healthCheck | listKeys | hasKey key =>
    exact iff_of_true (fun _ => rfl) (by rintro ⟨_, _, _, heq, -⟩; cases heq)

inductive SampleObject where
  | list
  | set
  deriving DecidableEq, Repr

def emptyListPickle : Bytes := [0x80, 4, 0x5D, 0x94, 0x2E]

def sampleRuntime : Runtime SampleObject Unit where
  pickleDumps
    | .list => .ok emptyListPickle
    | .set => .error (.other "out of scope")
  pickleLoads data := if data = emptyListPickle then .ok .list else .error (.other "invalid load key")
  setObject _ := .set
  intObject _ := .set
  hashable _ := false
  typeName
    | .list => "list"
    | .set => "set"
  sameMember := (· = ·)
  length _ := .ok 0
  jsonLoads _ := .error (.value "Expecting value")
  jsonDumps _ := .ok []
  requestJson _ := .error (.value "Expecting value")
  readBody := .ok
  traceback e := e.text

def emptyServer : ServerState SampleObject := ⟨Dict.empty, 0, "localhost", 8080⟩

theorem failedAdd_leaves_set :
    (handle sampleRuntime emptyServer (.addObjectToSet "k" ([0, 0, 0, 5] ++ emptyListPickle))).2.Failed ∧
      (handle sampleRuntime emptyServer (.addObjectToSet "k" ([0, 0, 0, 5] ++ emptyListPickle))).1 ≠ emptyServer := by
  -- adding `[]` under a new key fails and leaves an empty set
  have hobj : (sampleRuntime.readBody ([0, 0, 0, 5] ++ emptyListPickle) >>= sampleRuntime.fromBinary) =
      .ok .list := by decide
  have hget : emptyServer.get? "k" = none := rfl
  rw [handle, addObjectToSetHandler_missing hobj hget]
  exact ⟨trivial, ServerState.put_ne_self hget _⟩

end Awex
