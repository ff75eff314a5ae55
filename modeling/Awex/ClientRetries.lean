import Awex.FailedRequests
import Awex.MetaClient
import Mathlib.Data.Multiset.Replicate

namespace Awex

open Retry

section Server

variable {Obj Json : Type} {server : ServerState Obj} {key : String}

/-- A set takes the object that the body unpickles to for another copy of it. -/
def Runtime.Settles (rt : Runtime Obj Json) (body : Bytes) : Prop :=
  ∀ obj, (rt.readBody body >>= rt.fromBinary) = .ok obj → rt.hashable obj = true → rt.sameMember obj obj = true

def Request.Harmless (rt : Runtime Obj Json) : Request → Prop
  | .delete _ | .allocateAutoGrowId => False
  | .addObjectToSet _ body => rt.Settles body
  | _ => True

def ServerState.erase (server : ServerState Obj) (key : String) : ServerState Obj :=
  { server with storage := server.storage.erase key }

@[simp] theorem ServerState.get?_erase (server : ServerState Obj) (key key' : String) :
    (server.erase key).get? key' = if key = key' then none else server.get? key' :=
  server.storage.get?_erase key key'

theorem deleteHandler_present (rt : Runtime Obj Json) (h : (server.get? key).isSome) :
    deleteHandler rt server key = (server.erase key, .message ("Key '" ++ key ++ "' deleted")) := by
  rw [deleteHandler, ServerState.delete, if_pos h]
  rfl

theorem deleteHandler_missing (rt : Runtime Obj Json) (h : server.get? key = none) :
    deleteHandler rt server key = (server, .failure 404 ("Key '" ++ key ++ "' not found in storage")) := by
  rw [deleteHandler, ServerState.delete, h, if_neg (by simp)]

variable (rt : Runtime Obj Json)

theorem Runtime.addMember_twice {obj : Obj} (h : rt.sameMember obj obj = true) (objects : Multiset Obj) :
    rt.addMember obj (rt.addMember obj objects) = rt.addMember obj objects := by
  by_cases hmem : ∃ member ∈ objects, rt.sameMember member obj = true
  · obtain ⟨member, hmem, hsame⟩ := hmem
    rw [rt.addMember_of_mem hmem hsame, rt.addMember_of_mem hmem hsame]
  · push Not at hmem
    rw [rt.addMember_of_new (fun member hm => Bool.eq_false_of_not_eq_true (hmem member hm))]
    exact rt.addMember_of_mem (Multiset.mem_cons_self obj objects) h

theorem addObjectToSetHandler_twice (server : ServerState Obj) (key : String) {body : Bytes} (h : rt.Settles body) :
    addObjectToSetHandler rt (addObjectToSetHandler rt server key body).1 key body =
      addObjectToSetHandler rt server key body := by
  cases hobj : (rt.readBody body >>= rt.fromBinary) with
  | error e => rw [addObjectToSetHandler_undecoded hobj, addObjectToSetHandler_undecoded hobj]
  | ok obj =>
    cases hget : server.get? key with
    | none =>
      rw [addObjectToSetHandler_missing hobj hget]
      by_cases hash : rt.hashable obj
      · rw [if_pos hash, addObjectToSetHandler_members hobj (by rw [ServerState.get?_put, if_pos rfl]), if_pos hash,
          ServerState.put_put, rt.addMember_of_mem (Multiset.mem_singleton_self obj) (h obj hobj hash)]
      · rw [if_neg hash, addObjectToSetHandler_members hobj (by rw [ServerState.get?_put, if_pos rfl]), if_neg hash]
    | some value =>
      cases value with
      | bytes data => rw [addObjectToSetHandler_bytes hobj hget, addObjectToSetHandler_bytes hobj hget]
      | members objects =>
        rw [addObjectToSetHandler_members hobj hget]
        by_cases hash : rt.hashable obj
        · rw [if_pos hash, addObjectToSetHandler_members hobj (by rw [ServerState.get?_put, if_pos rfl]), if_pos hash,
            ServerState.put_put, rt.addMember_twice (h obj hobj hash)]
        · rw [if_neg hash, addObjectToSetHandler_members hobj hget, if_neg hash]

theorem Request.Harmless.handle_twice {request : Request} (h : request.Harmless rt) (server : ServerState Obj) :
    handle rt (handle rt server request).1 request = handle rt server request := by
  cases request with
  | addObjectToSet key body => exact addObjectToSetHandler_twice rt server key h
  | putBinary key body =>
    cases hdata : rt.readBody body <;> simp [handle, putBinaryHandler, hdata]
  | putJson key body =>
    cases hdata : rt.readBody body >>= rt.requestJson >>= rt.jsonDumps <;> simp [handle, putJsonHandler, hdata]
  | getBinary key | getJson key | healthCheck | listKeys | hasKey key => rfl
  | delete key | allocateAutoGrowId => exact absurd h id

theorem Request.Harmless.keepsState {request : Request} (h : request.Harmless rt) :
    KeepsState (handle rt) request :=
  fun server => congrArg Prod.fst (h.handle_twice rt server)

theorem Request.Harmless.keepsResponse {request : Request} (h : request.Harmless rt) :
    KeepsResponse (handle rt) request :=
  fun server => congrArg Prod.snd (h.handle_twice rt server)

theorem handle_delete_present (h : (server.get? key).isSome) :
    handle rt server (.delete key) = (server.erase key, .message ("Key '" ++ key ++ "' deleted")) :=
  deleteHandler_present rt h

theorem handle_delete_missing (h : server.get? key = none) : handle rt server (.delete key) =
    (server, .failure 404 ("Key '" ++ key ++ "' not found in storage")) :=
  deleteHandler_missing rt h

theorem delete_keepsState (key : String) : KeepsState (handle rt) (.delete key) := by
  intro server
  cases hget : server.get? key with
  | none => rw [handle_delete_missing rt hget, handle_delete_missing rt hget]
  | some value =>
    have hgone : (server.erase key).get? key = none := by rw [ServerState.get?_erase, if_pos rfl]
    rw [handle_delete_present rt (hget ▸ rfl : (server.get? key).isSome), handle_delete_missing rt hgone]

end Server

namespace MetaClient

variable {Obj Json α : Type} (rt : Runtime Obj Json)

theorem tolerant_ofExcept (result : Except ServerException α) :
    (ofExcept result : MetaClient Json α).Tolerant (handle rt) := by
  cases result <;> trivial

theorem tolerant_send (request : Request) (h : request.Harmless rt) :
    (send request : MetaClient Json _).Tolerant (handle rt) := by
  refine ⟨h.keepsState rt, .inl (h.keepsResponse rt), fun response => ?_⟩
  cases response <;> trivial

theorem tolerant_raiseForStatus (response : Response Json) : (raiseForStatus response).Tolerant (handle rt) := by
  unfold raiseForStatus
  split_ifs <;> trivial

theorem tolerant_checked (request : Request) (h : request.Harmless rt) :
    (checked request : MetaClient Json _).Tolerant (handle rt) :=
  (tolerant_send rt request h).bind (tolerant_raiseForStatus rt)

theorem tolerant_hasKey (key : String) : (hasKey key : MetaClient Json Bool).Tolerant (handle rt) := by
  apply (tolerant_checked rt (.hasKey key) trivial).bind
  intro response
  cases response <;> trivial

theorem tolerant_hasKeyOrTimeout (key : String) :
    (hasKeyOrTimeout key : MetaClient Json Bool).Tolerant (handle rt) := by
  apply (tolerant_hasKey rt key).tryCatch
  intro e
  split <;> trivial

theorem tolerant_pollKey (key : String) (polls : ℕ) :
    (pollKey key polls : MetaClient Json Bool).Tolerant (handle rt) := by
  induction polls with
  | zero => exact tolerant_hasKeyOrTimeout rt key
  | succ polls ih =>
    apply (tolerant_hasKeyOrTimeout rt key).bind
    intro found
    cases found with
    | false => exact ih
    | true => trivial

theorem tolerant_waitKey (key : String) (polls : ℕ) :
    (waitKey key polls : MetaClient Json Unit).Tolerant (handle rt) := by
  apply (tolerant_pollKey rt key polls).bind
  intro found
  cases found <;> trivial

theorem tolerant_getBinary (key : String) (polls : Option ℕ) :
    (getBinary key polls : MetaClient Json Bytes).Tolerant (handle rt) := by
  have hfetch : ((send (.getBinary key)).bind (fun response =>
      if response.status = 404 then raise (.keyNotFound key)
      else (raiseForStatus response).bind (fun response => ok (contentOf response))) :
        MetaClient Json Bytes).Tolerant (handle rt) := by
    apply (tolerant_send rt (.getBinary key) trivial).bind
    intro response
    split_ifs
    · trivial
    · exact (tolerant_raiseForStatus rt response).bind (fun _ => trivial)
  cases polls with
  | none => exact hfetch
  | some polls => exact (tolerant_waitKey rt key polls).bind (fun _ => hfetch)

theorem tolerant_fetchObject (key : String) (defaultValue : Option Obj) :
    (fetchObject rt key defaultValue).Tolerant (handle rt) := by
  apply (tolerant_send rt (.getBinary key) trivial).bind
  intro response
  split_ifs
  · trivial
  · apply (tolerant_raiseForStatus rt response).bind
    intro response
    exact (tolerant_ofExcept rt _).bind (fun _ => trivial)

theorem tolerant_getObject (key : String) (polls : Option ℕ) (defaultValue : Option Obj) :
    (getObject rt key polls defaultValue).Tolerant (handle rt) := by
  cases polls with
  | none => exact tolerant_fetchObject rt key defaultValue
  | some polls =>
    apply (tolerant_pollKey rt key polls).bind
    intro found
    cases found with
    | true => exact tolerant_fetchObject rt key defaultValue
    | false => cases defaultValue <;> trivial

theorem tolerant_putObject (key : String) (obj : Obj) : (putObject rt key obj).Tolerant (handle rt) := by
  apply (tolerant_ofExcept rt _).bind
  intro binaryData
  apply (tolerant_checked rt (.putBinary key binaryData) trivial).bind
  intro response
  cases response <;> trivial

theorem tolerant_addObjectToSet (key : String) {obj : Obj} (h : ∀ body, rt.toBinary obj = .ok body → rt.Settles body) :
    (addObjectToSet rt key obj).Tolerant (handle rt) := by
  unfold addObjectToSet
  cases hbinary : rt.toBinary obj with
  | error e => trivial
  | ok body =>
    apply (tolerant_checked rt (.addObjectToSet key body) (h body hbinary)).bind
    intro response
    cases response <;> trivial

theorem tolerant_getJson (key : String) : (getJson key : MetaClient Json _).Tolerant (handle rt) := by
  apply (tolerant_send rt (.getJson key) trivial).bind
  intro response
  split_ifs
  · trivial
  · apply (tolerant_raiseForStatus rt response).bind
    intro response
    cases response <;> trivial

theorem tolerant_putJson (key : String) (jsonData : Json) : (putJson rt key jsonData).Tolerant (handle rt) := by
  apply (tolerant_ofExcept rt _).bind
  intro body
  exact tolerant_checked rt (.putJson key body) trivial

theorem tolerant_deleteIfExists (key : String) : (deleteIfExists key : MetaClient Json _).Tolerant (handle rt) := by
  have hanswer : ∀ response : Response Json,
      ((((ok response).bind raiseForStatus).bind (fun _ => ok ())).tryCatch (fun _ => ok ()) : MetaClient Json Unit) =
        ok () := by
    intro response
    change (((raiseForStatus response).bind (fun _ => ok ())).tryCatch (fun _ => ok ()) : MetaClient Json Unit) = ok ()
    unfold raiseForStatus
    split_ifs <;> rfl
  refine ⟨delete_keepsState rt key, .inr ?_, ?_⟩
  · intro response response'
    exact (hanswer response).trans (hanswer response').symm
  · intro response
    cases response with
    | ok response =>
      change Client.Tolerant (handle rt)
        ((((ok response).bind raiseForStatus).bind (fun _ => ok ())).tryCatch (fun _ => ok ()))
      rw [hanswer]
      trivial
    | error loss => trivial

theorem tolerant_waitSet (key : String) (size polls : ℕ) (rounds : List ℕ) :
    (waitSet rt key size polls rounds).Tolerant (handle rt) := by
  induction rounds generalizing polls with
  | nil =>
    rw [waitSet]
    apply (tolerant_getObject rt key _ _).bind
    intro currentSet
    cases currentSet with
    | none => trivial
    | some currentSet =>
      apply (tolerant_ofExcept rt _).bind
      intro length
      split_ifs <;> trivial
  | cons next rounds ih =>
    rw [waitSet]
    apply (tolerant_getObject rt key _ _).bind
    intro currentSet
    cases currentSet with
    | none => trivial
    | some currentSet =>
      apply (tolerant_ofExcept rt _).bind
      intro length
      split_ifs
      · trivial
      · exact ih next

theorem tolerant_waitSetUntilSize (key : String) (size polls : ℕ) (rounds : List ℕ) (deleteAfterWait : Bool) :
    (waitSetUntilSize rt key size polls rounds deleteAfterWait).Tolerant (handle rt) := by
  apply (tolerant_waitSet rt key size polls rounds).bind
  intro _
  split_ifs
  · exact tolerant_deleteIfExists rt key
  · trivial

theorem tolerant_barrier (key : String) {rank : ℕ}
    (h : ∀ body, rt.toBinary (rt.intObject rank) = .ok body → rt.Settles body) (worldSize polls : ℕ)
    (rounds : List ℕ) : (barrier rt key rank worldSize polls rounds).Tolerant (handle rt) := by
  apply (tolerant_addObjectToSet rt key h).bind
  intro _
  apply (tolerant_waitSetUntilSize rt key worldSize polls rounds false).bind
  intro _
  split_ifs
  · exact tolerant_deleteIfExists rt key
  · trivial

theorem tolerant_listKeys : (listKeys : MetaClient Json _).Tolerant (handle rt) := by
  apply (tolerant_checked rt .listKeys trivial).bind
  intro response
  cases response <;> trivial

section GetObject

variable {rt} {server : ServerState Obj} {key : String}

theorem pollKey_missing (h : server.get? key = none) (polls : ℕ) :
    (pollKey key polls : MetaClient Json Bool).once (handle rt) ClientOperation.retries server = (server, .ok false) := by
  have hfirst : (hasKeyOrTimeout key : MetaClient Json Bool).once (handle rt) ClientOperation.retries server =
      (server, .ok false) := by
    have hkey : handle rt server (.hasKey key) = (server, .hasKey false) := by rw [handle, h]; rfl
    have hretry : retry (handle rt) ClientOperation.retries [] server (.hasKey key) =
        (server, (.ok (.hasKey false) : Except LostResponse (Response Json))) := retry_fixed hkey (Nat.zero_le _)
    change Client.run (handle rt) ClientOperation.retries
      (Client.send (Request.hasKey key) _) (fun _ => []) server = _
    rw [Client.run, hretry]
    rfl
  induction polls with
  | zero => exact hfirst
  | succ polls ih =>
    obtain ⟨n, hn⟩ := Client.run_bind_ok hfirst (fun found => if found then ok true else pollKey key polls)
    exact hn.trans ih

theorem getObject_missing (h : server.get? key = none) (polls : ℕ) :
    (getObject rt key (some polls) none).once (handle rt) ClientOperation.retries server =
      (server, .error (.timeout key)) := by
  obtain ⟨n, hn⟩ := Client.run_bind_ok (pollKey_missing h polls) (fun found =>
    if found then fetchObject rt key none else raise (.timeout key))
  exact hn

theorem pollKey_send (key : String) (polls : ℕ) : ∃ next,
    (pollKey key polls : MetaClient Json Bool) = Client.send (.hasKey key) next ∧
      next (.ok (.hasKey true)) = ok true := by
  cases polls with
  | zero => exact ⟨_, rfl, rfl⟩
  | succ polls => exact ⟨_, rfl, rfl⟩

theorem fetchObject_send (rt : Runtime Obj Json) (key : String) (defaultValue : Option Obj) : ∃ next,
    fetchObject rt key defaultValue = Client.send (.getBinary key) next ∧
      ∀ response, ∃ result, next (.ok response) = Client.done result := by
  refine ⟨_, rfl, fun response => ?_⟩
  change ∃ result, (if response.status = 404 then ok defaultValue else (raiseForStatus response).bind (fun response =>
    (ofExcept (rt.fromBinary (contentOf response))).bind (fun obj => ok (some obj)))) = Client.done result
  split_ifs
  · exact ⟨_, rfl⟩
  · unfold raiseForStatus
    split_ifs
    · exact ⟨_, rfl⟩
    · change ∃ result, (ofExcept (rt.fromBinary (contentOf response))).bind (fun obj => ok (some obj)) =
        Client.done result
      cases rt.fromBinary (contentOf response) <;> exact ⟨_, rfl⟩

theorem getObject_present (rt : Runtime Obj Json) (h : (server.get? key).isSome) (polls : ℕ) :
    ∃ result, ∀ {β : Type} (f : Option Obj → MetaClient Json β) (lost : ℕ → List LostResponse),
      (∀ i, (lost i).length ≤ ClientOperation.retries) →
      ((getObject rt key (some polls) none).bind f).run (handle rt) ClientOperation.retries lost server =
        ((Client.done result : MetaClient Json (Option Obj)).bind f).run (handle rt) ClientOperation.retries
          (fun i => lost (i + 2)) server := by
  obtain ⟨next, hpoll, hnext⟩ := pollKey_send key polls
  obtain ⟨next', hfetch, hnext'⟩ := fetchObject_send rt key none
  obtain ⟨result, hresult⟩ := hnext' (getBinaryHandler rt server key)
  refine ⟨result, fun f lost hlost => ?_⟩
  have hkey : handle rt server (.hasKey key) = (server, .hasKey true) := by rw [handle, h]
  have hbinary : handle rt server (.getBinary key) = (server, getBinaryHandler rt server key) := rfl
  calc ((getObject rt key (some polls) none).bind f).run (handle rt) ClientOperation.retries lost server
      = ((fetchObject rt key none).bind f).run (handle rt) ClientOperation.retries (fun i => lost (i + 1)) server := by
        rw [getObject, hpoll, Client.bind, Client.bind, Client.run, retry_fixed hkey (hlost 0)]
        simp only [hnext]
        rfl
    _ = ((Client.done result : MetaClient Json (Option Obj)).bind f).run (handle rt) ClientOperation.retries
          (fun i => lost (i + 2)) server := by
        rw [hfetch, Client.bind, Client.run, retry_fixed hbinary (hlost 1)]
        simp only [hresult]

end GetObject

end MetaClient

namespace ClientOperation

variable {Obj Json : Type} (rt : Runtime Obj Json)

def ReportsChange : ClientOperation Obj Json → Prop
  | .delete _ | .getObjectThenDelete _ _ | .allocateAutoGrowId => True
  | _ => False

/-- What the operation adds to a set is equal to its copies. -/
def Settled : ClientOperation Obj Json → Prop
  | .addObjectToSet _ obj => ∀ body, rt.toBinary obj = .ok body → rt.Settles body
  | .barrier _ rank _ _ _ => ∀ body, rt.toBinary (rt.intObject rank) = .ok body → rt.Settles body
  | _ => True

theorem tolerant_program {op : ClientOperation Obj Json} (h : ¬ op.ReportsChange) (hsettled : op.Settled rt) :
    (op.program rt).Tolerant (handle rt) := by
  cases op with
  | delete key | getObjectThenDelete key polls | allocateAutoGrowId => exact absurd trivial h
  | getBinary key polls => exact (MetaClient.tolerant_getBinary rt key polls).bind (fun _ => trivial)
  | putBinary key binary =>
    exact (MetaClient.tolerant_checked rt (.putBinary key binary) trivial).bind (fun _ => trivial)
  | waitKey key polls => exact (MetaClient.tolerant_waitKey rt key polls).bind (fun _ => trivial)
  | getObject key polls defaultValue =>
    exact (MetaClient.tolerant_getObject rt key polls defaultValue).bind (fun _ => trivial)
  | putObject key obj => exact (MetaClient.tolerant_putObject rt key obj).bind (fun _ => trivial)
  | addObjectToSet key obj => exact (MetaClient.tolerant_addObjectToSet rt key hsettled).bind (fun _ => trivial)
  | getSet key => exact (MetaClient.tolerant_getObject rt key none none).bind (fun _ => trivial)
  | waitSetUntilSize key size polls rounds deleteAfterWait =>
    exact (MetaClient.tolerant_waitSetUntilSize rt key size polls rounds deleteAfterWait).bind (fun _ => trivial)
  | barrier key rank worldSize polls rounds =>
    exact (MetaClient.tolerant_barrier rt key hsettled worldSize polls rounds).bind (fun _ => trivial)
  | getJson key => exact (MetaClient.tolerant_getJson rt key).bind (fun _ => trivial)
  | putJson key jsonData => exact (MetaClient.tolerant_putJson rt key jsonData).bind (fun _ => trivial)
  | deleteIfExists key => exact (MetaClient.tolerant_deleteIfExists rt key).bind (fun _ => trivial)
  | healthCheck => exact (MetaClient.tolerant_checked rt .healthCheck trivial).bind (fun _ => trivial)
  | hasKey key => exact (MetaClient.tolerant_hasKey rt key).bind (fun _ => trivial)
  | listKeys => exact (MetaClient.tolerant_listKeys rt).bind (fun _ => trivial)

def deletion? (server : ServerState Obj) : ClientOperation Obj Json → Option ℕ
  | .delete key => if (server.get? key).isSome then some 0 else none
  | .getObjectThenDelete key polls =>
    if ((MetaClient.getObject rt key (some polls) none).once (handle rt) retries server).2.isOk then some 2 else none
  | _ => none

section Changes

variable {rt} {server : ServerState Obj} {key : String}

theorem retry_delete_again {missed : List LostResponse} (hmissed : missed.length ≤ retries) (hne : missed ≠ [])
    (hkey : (server.get? key).isSome) : retry (handle rt) retries missed server (.delete key) =
      (server.erase key, .ok (.failure 404 ("Key '" ++ key ++ "' not found in storage"))) := by
  obtain ⟨loss, missed, rfl⟩ := List.exists_cons_of_ne_nil hne
  have hgone : (server.erase key).get? key = none := by rw [ServerState.get?_erase, if_pos rfl]
  rw [retries, retry, handle_delete_present rt hkey]
  exact retry_fixed (handle_delete_missing rt hgone) (Nat.le_of_succ_le_succ hmissed)

theorem retry_allocate {missed : List LostResponse} {attempts : ℕ} (hmissed : missed.length ≤ attempts) :
    retry (handle rt) attempts missed server .allocateAutoGrowId =
      ({ server with idCounter := server.idCounter + missed.length + 1 },
        .ok (.id (server.idCounter + missed.length))) := by
  induction missed generalizing server attempts with
  | nil =>
    rw [retry]
    rfl
  | cons loss missed ih =>
    obtain ⟨attempts, rfl⟩ := Nat.exists_eq_succ_of_ne_zero (Nat.ne_zero_of_lt hmissed)
    have hfirst : (handle rt server .allocateAutoGrowId).1 = { server with idCounter := server.idCounter + 1 } := rfl
    rw [retry, hfirst, ih (Nat.le_of_succ_le_succ hmissed), List.length_cons]
    congr 3
    all_goals
      rw [Nat.add_right_comm]
      rfl

/-- A set that holds these objects is under the key, or nothing and no objects. -/
def HoldsSet (server : ServerState Obj) (key : String) (objects : Multiset Obj) : Prop :=
  server.get? key = none ∧ objects = 0 ∨ server.get? key = some (.members objects)

theorem handle_addObjectToSet_new {body : Bytes} {copy : Obj} {objects : Multiset Obj}
    (hcopy : (rt.readBody body >>= rt.fromBinary) = .ok copy) (hash : rt.hashable copy = true)
    (hholds : HoldsSet server key objects) (hnew : ∀ member ∈ objects, rt.sameMember member copy = false) :
    handle rt server (.addObjectToSet key body) = (server.put key (.members (copy ::ₘ objects)),
      .message ("Object stored for key '" ++ key ++ "'")) := by
  rcases hholds with ⟨hget, rfl⟩ | hget
  · exact (addObjectToSetHandler_missing hcopy hget).trans (if_pos hash)
  · have hadd := (addObjectToSetHandler_members hcopy hget).trans (if_pos hash)
    rwa [rt.addMember_of_new hnew] at hadd

theorem retry_addObjectToSet {body : Bytes} {copy : Obj} {objects : Multiset Obj} {missed : List LostResponse}
    {attempts : ℕ} (hmissed : missed.length ≤ attempts) (hcopy : (rt.readBody body >>= rt.fromBinary) = .ok copy)
    (hash : rt.hashable copy = true) (hholds : HoldsSet server key objects)
    (hnew : ∀ member ∈ copy ::ₘ objects, rt.sameMember member copy = false) :
    retry (handle rt) attempts missed server (.addObjectToSet key body) =
      (server.put key (.members (Multiset.replicate (missed.length + 1) copy + objects)),
        .ok (.message ("Object stored for key '" ++ key ++ "'"))) := by
  have hstep := handle_addObjectToSet_new hcopy hash hholds fun member hm => hnew member (Multiset.mem_cons_of_mem hm)
  induction missed generalizing server objects attempts with
  | nil =>
    rw [retry, hstep, List.length_nil, Nat.zero_add, Multiset.replicate_one, Multiset.singleton_add]
  | cons loss missed ih =>
    obtain ⟨attempts, rfl⟩ := Nat.exists_eq_succ_of_ne_zero (Nat.ne_zero_of_lt hmissed)
    have hmore : ∀ member ∈ copy ::ₘ copy ::ₘ objects, rt.sameMember member copy = false := by
      intro member hmem
      rcases Multiset.mem_cons.mp hmem with rfl | hmem
      · exact hnew member (Multiset.mem_cons_self member objects)
      · exact hnew member hmem
    have hput : HoldsSet (server.put key (.members (copy ::ₘ objects))) key (copy ::ₘ objects) :=
      .inr (by rw [ServerState.get?_put, if_pos rfl])
    rw [retry, hstep, ih (Nat.le_of_succ_le_succ hmissed) hput hmore (handle_addObjectToSet_new hcopy hash hput hnew),
      ServerState.put_put, List.length_cons, Multiset.replicate_succ copy (missed.length + 1), Multiset.cons_add,
      Multiset.add_cons]

theorem run_delete_of_retry (lost : ℕ → List LostResponse) {server' : ServerState Obj} {response : Response Json}
    (h : retry (handle rt) retries (lost 0) server (.delete key) = (server', .ok response)) :
    (delete key : ClientOperation Obj Json).run rt lost server =
      (server', if 400 ≤ response.status then .error (.http response.status) else .ok (.response response)) := by
  rw [run, program, MetaClient.delete, MetaClient.checked, MetaClient.send]
  simp only [Client.bind, Client.run, h, MetaClient.ok, MetaClient.raiseForStatus]
  split_ifs <;> rfl

variable (lost : ℕ → List LostResponse) (hlost : ∀ i, (lost i).length ≤ retries)

include hlost

theorem run_delete_eq_once (h : (server.get? key).isSome → lost 0 = []) :
    (delete key : ClientOperation Obj Json).run rt lost server = (delete key).once rt server := by
  have honce : (retry (handle rt) retries [] server (.delete key) : _ × Except LostResponse _) =
      ((handle rt server (.delete key)).1, .ok (handle rt server (.delete key)).2) := by
    rw [retry]
  have hretry : retry (handle rt) retries (lost 0) server (.delete key) =
      ((handle rt server (.delete key)).1, .ok (handle rt server (.delete key)).2) := by
    cases hkey : server.get? key with
    | none =>
      rw [handle_delete_missing rt hkey]
      exact retry_fixed (handle_delete_missing rt hkey) (hlost 0)
    | some value =>
      rw [h (hkey ▸ rfl)]
      exact honce
  rw [run_delete_of_retry lost hretry]
  exact (run_delete_of_retry (fun _ => []) honce).symm

theorem run_delete_lost (hkey : (server.get? key).isSome) (hne : lost 0 ≠ []) :
    (delete key : ClientOperation Obj Json).run rt lost server =
      (((delete key : ClientOperation Obj Json).once rt server).1, .error (.http 404)) := by
  have honce : (retry (handle rt) retries [] server (.delete key) : _ × Except LostResponse _) =
      (server.erase key, .ok (.message ("Key '" ++ key ++ "' deleted"))) := by
    rw [retry, handle_delete_present rt hkey]
  rw [run_delete_of_retry lost (retry_delete_again (hlost 0) hne hkey)]
  change _ = (((delete key : ClientOperation Obj Json).run rt (fun _ => []) server).1, _)
  rw [run_delete_of_retry (fun _ => []) honce]
  rfl

theorem run_allocate : (allocateAutoGrowId : ClientOperation Obj Json).run rt lost server =
    ({ server with idCounter := server.idCounter + (lost 0).length + 1 },
      .ok (.id (server.idCounter + (lost 0).length))) := by
  rw [run, program, MetaClient.allocateAutoGrowId, MetaClient.checked, MetaClient.send]
  simp only [Client.bind, Client.run, retry_allocate (hlost 0), MetaClient.ok, MetaClient.raiseForStatus,
    Response.status]
  rfl

theorem run_addObjectToSet_unsettled {obj : Obj} {body : Bytes} {copy : Obj} {objects : Multiset Obj}
    (hbody : rt.toBinary obj = .ok body) (hcopy : (rt.readBody body >>= rt.fromBinary) = .ok copy)
    (hash : rt.hashable copy = true) (hholds : HoldsSet server key objects)
    (hnew : ∀ member ∈ copy ::ₘ objects, rt.sameMember member copy = false) :
    (addObjectToSet key obj : ClientOperation Obj Json).run rt lost server =
      (server.put key (.members (Multiset.replicate ((lost 0).length + 1) copy + objects)),
        .ok (.response (.message ("Object stored for key '" ++ key ++ "'")))) := by
  -- an object that no set takes for its copy is added by each execution
  rw [run, program, MetaClient.addObjectToSet, hbody]
  simp only [MetaClient.ofExcept, MetaClient.checked, MetaClient.send, Client.bind, Client.run,
    retry_addObjectToSet (hlost 0) hcopy hash hholds hnew, MetaClient.ok, MetaClient.raiseForStatus, Response.status]
  rfl

theorem run_getObjectThenDelete_error {polls : ℕ} {server' : ServerState Obj} {e : ClientError}
    (h : (MetaClient.getObject rt key (some polls) none).once (handle rt) retries server = (server', .error e)) :
    (getObjectThenDelete key polls : ClientOperation Obj Json).run rt lost server = (server', .error e) := by
  rw [← (MetaClient.tolerant_getObject rt key (some polls) none).run_eq_once hlost] at h
  exact Client.run_bind_error (Client.run_bind_error h _) _

theorem run_getObjectThenDelete_ok {polls : ℕ}
    (h : ((MetaClient.getObject rt key (some polls) none).once (handle rt) retries server).2.isOk) :
    (getObjectThenDelete key polls : ClientOperation Obj Json).run rt lost server =
      (server.erase key, if lost 2 = [] then .ok .none else .error (.http 404)) := by
  cases hkey : server.get? key with
  | none =>
    rw [MetaClient.getObject_missing hkey] at h
    cases h
  | some value =>
    have hsome : (server.get? key).isSome := hkey ▸ rfl
    obtain ⟨result, hresult⟩ := MetaClient.getObject_present rt hsome polls
    have honce := hresult (fun obj => .done (.ok obj)) (fun _ => []) (fun _ => Nat.zero_le _)
    rw [Client.bind_done, Client.bind_done, Client.run] at honce
    rw [Client.once, honce] at h
    cases result with
    | error e => cases h
    | ok obj =>
      rw [run, program, MetaClient.getObjectThenDelete, Client.bind_assoc, hresult _ lost hlost]
      by_cases hlost2 : lost 2 = []
      · have hretry : (retry (handle rt) retries (lost 2) server (.delete key) : _ × Except LostResponse _) =
            (server.erase key, .ok (.message ("Key '" ++ key ++ "' deleted"))) := by
          rw [hlost2, retry, handle_delete_present rt hsome]
        simp only [Client.bind, MetaClient.delete, MetaClient.checked, MetaClient.send, Client.run, hretry,
          MetaClient.ok, MetaClient.raiseForStatus, Response.status, if_pos hlost2]
        rfl
      · simp only [Client.bind, MetaClient.delete, MetaClient.checked, MetaClient.send, Client.run,
          retry_delete_again (hlost 2) hlost2 hsome, MetaClient.ok, MetaClient.raiseForStatus, Response.status,
          if_neg hlost2]
        rfl

end Changes

theorem deletion?_eq_none {op : ClientOperation Obj Json} (h : ¬ op.ReportsChange) : op.deletion? rt server = none := by
  cases op with
  | delete key | getObjectThenDelete key polls => exact absurd trivial h
  | _ => rfl

/-- Lost responses show in three ways only: a deletion that was answered before is not found again, an allocation is
repeated, and so is the addition of an object that is not equal to its own copy. -/
theorem run_eq_once_unless (op : ClientOperation Obj Json) (server : ServerState Obj)
    (lost : ℕ → List LostResponse) (hlost : ∀ i, (lost i).length ≤ retries) :
    (op ≠ .allocateAutoGrowId → op.Settled rt → (∀ i, op.deletion? rt server = some i → lost i = []) →
      op.run rt lost server = op.once rt server) ∧
    (∀ i, op.deletion? rt server = some i → lost i ≠ [] →
      op.run rt lost server = ((op.once rt server).1, .error (.http 404))) ∧
    (op = .allocateAutoGrowId → op.run rt lost server =
      ({ server with idCounter := server.idCounter + (lost 0).length + 1 },
        .ok (.id (server.idCounter + (lost 0).length)))) ∧
    (∀ key obj body copy objects, op = .addObjectToSet key obj → rt.toBinary obj = .ok body →
      (rt.readBody body >>= rt.fromBinary) = .ok copy → rt.hashable copy = true → HoldsSet server key objects →
      (∀ member ∈ copy ::ₘ objects, rt.sameMember member copy = false) →
      op.run rt lost server =
        (server.put key (.members (Multiset.replicate ((lost 0).length + 1) copy + objects)),
          .ok (.response (.message ("Object stored for key '" ++ key ++ "'"))))) := by
  have hadded : ∀ key obj body copy objects, op = .addObjectToSet key obj → rt.toBinary obj = .ok body →
      (rt.readBody body >>= rt.fromBinary) = .ok copy → rt.hashable copy = true → HoldsSet server key objects →
      (∀ member ∈ copy ::ₘ objects, rt.sameMember member copy = false) →
      op.run rt lost server =
        (server.put key (.members (Multiset.replicate ((lost 0).length + 1) copy + objects)),
          .ok (.response (.message ("Object stored for key '" ++ key ++ "'")))) := by
    rintro key obj body copy objects rfl hbody hcopy hash hholds hnew
    exact run_addObjectToSet_unsettled lost hlost hbody hcopy hash hholds hnew
  by_cases hreports : op.ReportsChange
  · cases op with
    | delete key =>
      refine ⟨fun _ _ h => run_delete_eq_once lost hlost ?_, ?_, fun h => (nomatch h), hadded⟩
      · intro hkey
        exact h 0 (if_pos hkey)
      · intro i hi hne
        rw [deletion?] at hi
        split_ifs at hi with hkey
        obtain rfl := Option.some.inj hi
        exact run_delete_lost lost hlost hkey hne
    | getObjectThenDelete key polls =>
      rw [deletion?]
      cases hget : (MetaClient.getObject rt key (some polls) none).once (handle rt) retries server with
      | mk server' result =>
        cases result with
        | error e =>
          have honce := run_getObjectThenDelete_error (fun _ => []) (fun _ => Nat.zero_le _) hget
          refine ⟨fun _ _ _ => ?_, fun i hi => absurd hi (by simp [Except.isOk, Except.toBool]), fun h => (nomatch h),
            hadded⟩
          rw [run_getObjectThenDelete_error lost hlost hget]
          exact honce.symm
        | ok obj =>
          have hok : ((MetaClient.getObject rt key (some polls) none).once (handle rt) retries server).2.isOk := by
            rw [hget]
            rfl
          have honce := run_getObjectThenDelete_ok (fun _ => []) (fun _ => Nat.zero_le _) hok
          have hdeletion : (if (server', (Except.ok obj : Except ClientError (Option Obj))).2.isOk then some 2
              else none) = some 2 := rfl
          rw [hdeletion, run_getObjectThenDelete_ok lost hlost hok]
          refine ⟨fun _ _ h => ?_, ?_, fun h => (nomatch h), fun _ _ _ _ _ h => (nomatch h)⟩
          · rw [if_pos (h 2 rfl)]
            exact honce.symm
          · intro i hi hne
            obtain rfl := Option.some.inj hi
            rw [if_neg hne]
            change _ = (((getObjectThenDelete key polls : ClientOperation Obj Json).run rt (fun _ => []) server).1, _)
            rw [honce]
    | allocateAutoGrowId => exact ⟨fun h => absurd rfl h, fun i hi => (nomatch hi), fun _ => run_allocate lost hlost, hadded⟩
    | _ => exact absurd hreports id
  · refine ⟨fun _ hsettled _ => (tolerant_program rt hreports hsettled).run_eq_once hlost server, ?_, ?_, hadded⟩
    · intro i hi
      rw [deletion?_eq_none rt hreports] at hi
      cases hi
    · rintro rfl
      exact absurd trivial hreports

def oneKeyServer : ServerState SampleObject := emptyServer.put "k" (.bytes [1])

theorem run_delete_lost_once :
    ((delete "k" : ClientOperation SampleObject Unit).run sampleRuntime (fun _ => [.connectionError]) oneKeyServer).2 =
        .error (.http 404) ∧
      ((delete "k" : ClientOperation SampleObject Unit).once sampleRuntime oneKeyServer).2 =
        .ok (.response (.message "Key 'k' deleted")) := by
  -- a deletion whose first response is lost raises, where a single execution returns
  have hkey : (oneKeyServer.get? "k").isSome := rfl
  constructor
  · rw [run_delete_lost (fun _ => [.connectionError]) (fun _ => by decide) hkey (List.cons_ne_nil _ _)]
  · rw [once, program]
    rfl

theorem run_eq_once_put :
    (putBinary "k" [1, 2] : ClientOperation SampleObject Unit).run sampleRuntime (fun _ => [.readTimeout]) oneKeyServer =
      (putBinary "k" [1, 2] : ClientOperation SampleObject Unit).once sampleRuntime oneKeyServer :=
  (run_eq_once_unless sampleRuntime (putBinary "k" [1, 2] : ClientOperation SampleObject Unit) oneKeyServer
    (fun _ => [.readTimeout]) (fun _ => by decide)).1 nofun trivial nofun

end ClientOperation

end Awex
