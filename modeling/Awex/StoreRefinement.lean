import Awex.ClientRetries
import Awex.StoreClients
import Mathlib.Data.Finset.Powerset
import Mathlib.Tactic.IntervalCases

namespace Awex

open Retry

variable {Obj Json : Type}

/-- Unpickling inverts pickling. -/
def Runtime.Lossless (rt : Runtime Obj Json) : Prop :=
  ∀ obj data, rt.pickleDumps obj = .ok data → rt.pickleLoads data = .ok obj

/-- The object fits into the body of a request. -/
def Runtime.Sends (rt : Runtime Obj Json) (obj : Obj) : Prop :=
  ∃ binary, rt.toBinary obj = .ok binary ∧ rt.readBody binary = .ok binary

/-- The objects that clients add to sets can be hashed and are equal to their copies, and the sets of them fit into a
response. -/
structure Runtime.Collects (rt : Runtime Obj Json) (members : Finset Obj) : Prop where
  sends : ∀ obj ∈ members, rt.Sends obj
  hashable : ∀ obj ∈ members, rt.hashable obj = true
  sameMember : ∀ member ∈ members, ∀ obj ∈ members, rt.sameMember member obj = true ↔ member = obj
  packs : ∀ objects ⊆ members, ∃ binary, rt.toBinary (rt.setObject objects.val) = .ok binary
  length : ∀ objects ⊆ members, rt.length (rt.setObject objects.val) = .ok objects.card

theorem Runtime.Collects.addMember [DecidableEq Obj] {rt : Runtime Obj Json} {members : Finset Obj}
    (h : rt.Collects members) {objects : Finset Obj} (hsub : objects ⊆ members) {obj : Obj} (hobj : obj ∈ members) :
    rt.addMember obj objects.val = (insert obj objects).val := by
  by_cases hmem : obj ∈ objects
  · rw [Finset.insert_eq_of_mem hmem]
    exact rt.addMember_of_mem hmem ((h.sameMember obj hobj obj hobj).mpr rfl)
  · rw [Finset.insert_val_of_notMem hmem]
    apply rt.addMember_of_new
    intro member hmember
    apply Bool.eq_false_of_not_eq_true
    intro hsame
    exact hmem ((h.sameMember member (hsub hmember) obj hobj).mp hsame ▸ hmember)

theorem unpackLength_packLength {n : ℕ} {head : Bytes} (h : packLength n = .ok head) :
    head.length = 4 ∧ unpackLength head = .ok n := by
  unfold packLength at h
  split_ifs at h with hn
  obtain rfl := Except.ok.inj h
  refine ⟨rfl, ?_⟩
  unfold unpackLength
  simp only [UInt8.toNat_ofNat']
  congr 1
  omega

theorem Runtime.Lossless.fromBinary_toBinary {rt : Runtime Obj Json} (hrt : rt.Lossless) {obj : Obj} {binary : Bytes}
    (h : rt.toBinary obj = .ok binary) : rt.fromBinary binary = .ok obj := by
  obtain ⟨pickled, hpickled, h⟩ := Except.bind_eq_ok.mp h
  obtain ⟨head, hhead, h⟩ := Except.bind_eq_ok.mp h
  obtain rfl := Except.ok.inj h
  obtain ⟨hlength, hunpack⟩ := unpackLength_packLength hhead
  unfold Runtime.fromBinary
  rw [← hlength, List.take_left, hunpack, List.drop_left]
  simpa using hrt _ _ hpickled

inductive StoredAs (rt : Runtime Obj Json) (members : Finset Obj) :
    Option (StoredValue Obj) → Option (Stored Obj) → Prop where
  | absent : StoredAs rt members none none
  | object {data : Bytes} {obj : Obj} (h : rt.fromBinary data = .ok obj) :
      StoredAs rt members (some (.bytes data)) (some (.object obj))
  | set {objects : Finset Obj} (hsub : objects ⊆ members) :
      StoredAs rt members (some (.members objects.val)) (some (.members objects))

/-- What a client gets for the value under a key. -/
inductive Shows (rt : Runtime Obj Json) (members : Finset Obj) : Option Obj → Option (Stored Obj) → Prop where
  | none : Shows rt members none none
  | object (obj : Obj) : Shows rt members (some obj) (some (.object obj))
  | set {objects : Finset Obj} (hsub : objects ⊆ members) :
      Shows rt members (some (rt.setObject objects.val)) (some (.members objects))

def KeepsStore (rt : Runtime Obj Json) (members : Finset Obj) (server : ServerState Obj)
    (store : MetaServer String Obj) : Prop :=
  ∀ key, StoredAs rt members (server.get? key) (store.storage key)

section Requests

variable {rt : Runtime Obj Json} {members : Finset Obj} {server : ServerState Obj}
  {store : MetaServer String Obj} {key : String} {obj : Obj} {binary : Bytes}

theorem KeepsStore.put (h : KeepsStore rt members server store) {value : StoredValue Obj} {stored : Stored Obj}
    (hvalue : StoredAs rt members (some value) (some stored)) :
    KeepsStore rt members (server.put key value) (store.store key (some stored)) := by
  intro key'
  by_cases hkey : key = key'
  · subst hkey
    rw [ServerState.get?_put, if_pos rfl, MetaServer.storage_store]
    exact hvalue
  · rw [ServerState.get?_put, if_neg hkey, MetaServer.storage_store_of_ne _ (Ne.symm hkey)]
    exact h key'

theorem KeepsStore.erase (h : KeepsStore rt members server store) :
    KeepsStore rt members (server.erase key) (store.store key none) := by
  intro key'
  by_cases hkey : key = key'
  · subst hkey
    rw [ServerState.get?_erase, if_pos rfl, MetaServer.storage_store]
    exact .absent
  · rw [ServerState.get?_erase, if_neg hkey, MetaServer.storage_store_of_ne _ (Ne.symm hkey)]
    exact h key'

theorem KeepsStore.isSome (h : KeepsStore rt members server store) (key : String) :
    (server.get? key).isSome = store.hasKey key := by
  have hkey := h key
  unfold MetaServer.hasKey
  generalize server.get? key = value at hkey
  generalize store.storage key = stored at hkey
  cases hkey <;> rfl

theorem KeepsStore.putBinary (hrt : rt.Lossless) (h : KeepsStore rt members server store) (key : String)
    (hbinary : rt.toBinary obj = .ok binary) (hread : rt.readBody binary = .ok binary) :
    handle rt server (.putBinary key binary) = (server.put key (.bytes binary),
        .message ("Binary data stored for key '" ++ key ++ "'")) ∧
      KeepsStore rt members (server.put key (.bytes binary)) (store.putObject key obj) := by
  refine ⟨?_, h.put (.object (hrt.fromBinary_toBinary hbinary))⟩
  unfold handle putBinaryHandler
  simp only [hread, Except.ok_bind]

theorem KeepsStore.addObjectToSet [DecidableEq Obj] (hrt : rt.Lossless) (hmembers : rt.Collects members)
    (h : KeepsStore rt members server store) (key : String) (hobj : obj ∈ members)
    (hbinary : rt.toBinary obj = .ok binary) (hread : rt.readBody binary = .ok binary) :
    (∃ server' text store', handle rt server (.addObjectToSet key binary) = (server', .message text) ∧
        store.addObjectToSet key obj = .ok store' ∧ KeepsStore rt members server' store') ∨
      ∃ error, handle rt server (.addObjectToSet key binary) = (server, .failure 500 error) ∧
        store.addObjectToSet key obj = .error (.notASet key) := by
  have hdecoded : (rt.readBody binary >>= rt.fromBinary) = .ok obj := by
    rw [hread, Except.ok_bind]
    exact hrt.fromBinary_toBinary hbinary
  have hhash := hmembers.hashable obj hobj
  have hkey := h key
  unfold MetaServer.addObjectToSet
  generalize hs : server.get? key = value at hkey
  generalize ht : store.storage key = stored at hkey
  cases hkey with
  | absent =>
    refine Or.inl ⟨_, _, _, (addObjectToSetHandler_missing hdecoded hs).trans (if_pos hhash), rfl, h.put ?_⟩
    exact .set (Finset.singleton_subset_iff.mpr hobj)
  | object _ => exact Or.inr ⟨_, addObjectToSetHandler_bytes hdecoded hs, rfl⟩
  | set hsub =>
    have hadd := (addObjectToSetHandler_members hdecoded hs).trans (if_pos hhash)
    rw [hmembers.addMember hsub hobj] at hadd
    exact Or.inl ⟨_, _, _, hadd, rfl, h.put (.set (Finset.insert_subset hobj hsub))⟩

theorem KeepsStore.getBinary (hrt : rt.Lossless) (hmembers : rt.Collects members)
    (h : KeepsStore rt members server store) (key : String) :
    (∃ error, handle rt server (.getBinary key) = (server, .failure 404 error) ∧ store.storage key = none) ∨
      ∃ data obj stored, handle rt server (.getBinary key) = (server, .binary data) ∧
        rt.fromBinary data = .ok obj ∧ store.storage key = some stored ∧ Shows rt members (some obj) (some stored) := by
  have hkey := h key
  have hhandle : handle rt server (.getBinary key) = (server, getBinaryHandler rt server key) := rfl
  unfold getBinaryHandler at hhandle
  generalize server.get? key = value at hkey hhandle
  generalize store.storage key = stored at hkey
  cases hkey with
  | absent => exact Or.inl ⟨_, hhandle, rfl⟩
  | object hdata => exact Or.inr ⟨_, _, _, hhandle, hdata, rfl, .object _⟩
  | set hsub =>
    obtain ⟨binary, hbinary⟩ := hmembers.packs _ hsub
    simp only [hbinary] at hhandle
    exact Or.inr ⟨_, _, _, hhandle, hrt.fromBinary_toBinary hbinary, rfl, .set hsub⟩

theorem KeepsStore.delete (h : KeepsStore rt members server store) (key : String) :
    (∃ server' text store', handle rt server (.delete key) = (server', .message text) ∧
        store.delete key = .ok store' ∧ KeepsStore rt members server' store') ∨
      ∃ error, handle rt server (.delete key) = (server, .failure 404 error) ∧
        store.delete key = .error (.notFound key) := by
  have hkey := h.isSome key
  unfold MetaServer.delete
  cases hs : server.get? key with
  | none =>
    rw [hs] at hkey
    exact Or.inr ⟨_, handle_delete_missing rt hs, by simp [← hkey]⟩
  | some value =>
    rw [hs] at hkey
    refine Or.inl ⟨_, _, _, handle_delete_present rt (by simp [hs]), ?_, h.erase⟩
    simp [← hkey]

end Requests

/-- The exception that a client sees for an error of the store. -/
inductive Reports : ClientError → StoreError → Prop where
  | notFound (key : String) : Reports (.http 404) (.server (.notFound key))
  | notASet (key : String) : Reports (.http 500) (.server (.notASet key))
  | timeout (key : String) : Reports (.timeout key) (.timeout key)
  | setTimeout (key : String) (size : ℕ) : Reports (.setTimeout key size) (.setTimeout key size)
  | noValue : Reports .noLength .noLength
  | noLength (e : ServerException) : Reports (.exception e) .noLength

variable [DecidableEq Obj]

def Follows (rt : Runtime Obj Json) (members : Finset Obj) {α β : Type} (V : α → β → Prop) (client : MetaClient Json α)
    (client' : StoreClient Obj β) : Prop :=
  client.Refines (handle rt) MetaServer.answer (KeepsStore rt members) Reports V client'

section Programs

variable {rt : Runtime Obj Json} {members : Finset Obj} {α α' β β' : Type} {V : α → β → Prop} {key : String}

theorem Follows.bind {client : MetaClient Json α} {client' : StoreClient Obj β}
    (h : Follows rt members V client client') {W : α' → β' → Prop} {f : α → MetaClient Json α'}
    {f' : β → StoreClient Obj β'} (hf : ∀ a b, V a b → Follows rt members W (f a) (f' b)) :
    Follows rt members W (client.bind f) (client'.bind f') :=
  Client.Refines.bind h hf

theorem Follows.andThen {client : MetaClient Json α} {client' : StoreClient Obj β}
    (h : Follows rt members V client client') {W : α' → β' → Prop} {next : MetaClient Json α'}
    {next' : StoreClient Obj β'} (hnext : Follows rt members W next next') :
    Follows rt members W (client.bind fun _ => next) (client'.bind fun _ => next') :=
  h.bind fun _ _ _ => hnext

theorem follows_ok {a : α} {b : β} (h : V a b) : Follows rt members V (MetaClient.ok a) (StoreClient.ok b) := h

theorem follows_raise {e : ClientError} {e' : StoreError} (h : Reports e e') :
    Follows rt members V (MetaClient.raise e) (StoreClient.raise e') := h

theorem follows_send {request : Request} {request' : StoreRequest Obj}
    {next : Except LostResponse (Response Json) → MetaClient Json α}
    {next' : Except Empty (StoreAnswer Obj) → StoreClient Obj β}
    (h : ∀ server store, KeepsStore rt members server store → ∃ server' response store' answer,
      handle rt server request = (server', response) ∧ store.answer request' = (store', answer) ∧
        KeepsStore rt members server' store' ∧ Follows rt members V (next (.ok response)) (next' (.ok answer))) :
    Follows rt members V (Client.send request next) (Client.send request' next') := by
  intro server store hstore
  obtain ⟨server', response, store', answer, hhandle, hanswer, hstore', hnext⟩ := h server store hstore
  rw [hhandle, hanswer]
  exact ⟨hstore', hnext⟩

theorem follows_hasKey (key : String) :
    Follows rt members Eq (MetaClient.hasKey key) (StoreClient.hasKey key) := by
  apply follows_send
  intro server store hstore
  exact ⟨_, _, _, _, rfl, rfl, hstore, follows_ok (hstore.isSome key)⟩

theorem follows_hasKeyOrTimeout (rt : Runtime Obj Json) (members : Finset Obj) (key : String) :
    Follows rt members Eq (MetaClient.hasKeyOrTimeout key) (StoreClient.hasKey key) := by
  apply follows_send
  intro server store hstore
  exact ⟨_, _, _, _, rfl, rfl, hstore, follows_ok (hstore.isSome key)⟩

theorem follows_pollKey (rt : Runtime Obj Json) (members : Finset Obj) (key : String) (polls : ℕ) :
    Follows rt members Eq (MetaClient.pollKey key polls) (StoreClient.pollKey key polls) := by
  induction polls with
  | zero => exact follows_hasKeyOrTimeout rt members key
  | succ polls ih =>
    apply (follows_hasKeyOrTimeout rt members key).bind
    rintro found _ rfl
    cases found with
    | true => exact follows_ok rfl
    | false => exact ih

theorem follows_waitKey (key : String) (polls : ℕ) :
    Follows rt members (fun _ _ => True) (MetaClient.waitKey key polls) (StoreClient.waitKey key polls) := by
  apply (follows_pollKey rt members key polls).bind
  rintro found _ rfl
  cases found with
  | true => exact follows_ok trivial
  | false => exact follows_raise (.timeout key)

section Reading

variable (hrt : rt.Lossless) (hmembers : rt.Collects members)
include hrt hmembers

theorem follows_fetchObject (key : String) {defaultValue : Option Obj} {default' : Option (Stored Obj)}
    (hdefault : Shows rt members defaultValue default') : Follows rt members (Shows rt members)
      (MetaClient.fetchObject rt key defaultValue) (StoreClient.fetchObject key default') := by
  apply follows_send
  intro server store hstore
  have hanswer : store.answer (.getObject key) = (store, .stored (store.storage key)) := by
    unfold MetaServer.answer
    simp only [MetaServer.getObject_none]
  rcases hstore.getBinary hrt hmembers key with
    ⟨error, hhandle, hnone⟩ | ⟨data, obj, stored, hhandle, hdata, hsome, hshows⟩
  · rw [hnone] at hanswer
    exact ⟨_, _, _, _, hhandle, hanswer, hstore, follows_ok hdefault⟩
  · rw [hsome] at hanswer
    refine ⟨_, _, _, _, hhandle, hanswer, hstore, ?_⟩
    change Follows rt members (Shows rt members) ((MetaClient.ofExcept (rt.fromBinary data)).bind _)
      (StoreClient.ok (some stored))
    rw [hdata]
    exact follows_ok hshows

theorem follows_getObject (key : String) (polls : Option ℕ) {defaultValue : Option Obj} {default' : Option (Stored Obj)}
    (hdefault : Shows rt members defaultValue default') : Follows rt members (Shows rt members)
      (MetaClient.getObject rt key polls defaultValue) (StoreClient.getObject key polls default') := by
  have hfetch := follows_fetchObject hrt hmembers key hdefault
  cases polls with
  | none => exact hfetch
  | some polls =>
    apply (follows_pollKey rt members key polls).bind
    rintro found _ rfl
    cases found with
    | true => exact hfetch
    | false =>
      cases hdefault with
      | none => exact follows_raise (.timeout key)
      | object obj => exact follows_ok (.object obj)
      | set hsub => exact follows_ok (.set hsub)

def objectLength (rt : Runtime Obj Json) (obj : Obj) : Option ℕ := (rt.length obj).toOption

omit hrt in
theorem follows_length {obj : Obj} {stored : Stored Obj} (h : Shows rt members (some obj) (some stored)) :
    Follows rt members Eq (MetaClient.ofExcept (rt.length obj)) (StoreClient.lengthOf (objectLength rt) stored) := by
  cases h with
  | set hsub =>
    rw [hmembers.length _ hsub]
    exact follows_ok rfl
  | object =>
    unfold StoreClient.lengthOf objectLength
    simp only
    cases rt.length obj with
    | ok n => exact follows_ok rfl
    | error e => exact follows_raise (.noLength e)

theorem follows_waitRound (key : String) (size polls : ℕ) {next : MetaClient Json Unit} {next' : StoreClient Obj Unit}
    (hnext : Follows rt members (fun _ _ => True) next next') : Follows rt members (fun _ _ => True)
      ((MetaClient.getObject rt key (some polls) (some (rt.setObject ∅))).bind (fun
        | none => MetaClient.raise .noLength
        | some currentSet => (MetaClient.ofExcept (rt.length currentSet)).bind (fun length =>
          if size ≤ length then MetaClient.ok () else next)))
      (StoreClient.waitRound (objectLength rt) key size polls next') := by
  apply (follows_getObject hrt hmembers key (some polls) (.set (Finset.empty_subset members))).bind
  rintro (_ | obj) (_ | stored) hshows
  · exact follows_raise .noValue
  · cases hshows
  · cases hshows
  · apply (follows_length hmembers hshows).bind
    rintro length _ rfl
    split_ifs
    · exact follows_ok trivial
    · exact hnext

theorem follows_waitSet (key : String) (size polls : ℕ) (rounds : List ℕ) : Follows rt members (fun _ _ => True)
    (MetaClient.waitSet rt key size polls rounds) (StoreClient.waitSet (objectLength rt) key size polls rounds) := by
  induction rounds generalizing polls with
  | nil =>
    unfold MetaClient.waitSet
    exact follows_waitRound hrt hmembers key size polls (follows_raise (.setTimeout key size))
  | cons polls' rounds ih =>
    unfold MetaClient.waitSet
    exact follows_waitRound hrt hmembers key size polls (ih polls')

end Reading

section Writing

theorem follows_putObject (hrt : rt.Lossless) (key : String) {obj : Obj} (hobj : rt.Sends obj) :
    Follows rt members (fun _ _ => True) (MetaClient.putObject rt key obj) (StoreClient.putObject key obj) := by
  obtain ⟨binary, hbinary, hread⟩ := hobj
  unfold MetaClient.putObject
  rw [hbinary]
  apply follows_send
  intro server store hstore
  obtain ⟨hhandle, hput⟩ := hstore.putBinary hrt key hbinary hread
  exact ⟨_, _, _, _, hhandle, rfl, hput, follows_ok trivial⟩

theorem follows_addObjectToSet (hrt : rt.Lossless) (hmembers : rt.Collects members) (key : String) {obj : Obj}
    (hobj : obj ∈ members) : Follows rt members (fun _ _ => True) (MetaClient.addObjectToSet rt key obj)
      (StoreClient.addObjectToSet key obj) := by
  obtain ⟨binary, hbinary, hread⟩ := hmembers.sends obj hobj
  unfold MetaClient.addObjectToSet
  rw [hbinary]
  apply follows_send
  intro server store hstore
  rcases hstore.addObjectToSet hrt hmembers key hobj hbinary hread with
    ⟨server', text, store', hhandle, hadd, hstore'⟩ | ⟨error, hhandle, hadd⟩
  · refine ⟨_, _, store', .done, hhandle, ?_, hstore', follows_ok trivial⟩
    simp only [MetaServer.answer, hadd]
  · refine ⟨_, _, store, .error (.notASet key), hhandle, ?_, hstore, follows_raise (.notASet key)⟩
    simp only [MetaServer.answer, hadd]

theorem follows_delete (key : String) : Follows rt members (fun _ _ => True) (MetaClient.delete key : MetaClient Json _)
    (StoreClient.delete key) := by
  apply follows_send
  intro server store hstore
  rcases hstore.delete key with ⟨server', text, store', hhandle, hdelete, hstore'⟩ | ⟨error, hhandle, hdelete⟩
  · refine ⟨_, _, store', .done, hhandle, ?_, hstore', follows_ok trivial⟩
    simp only [MetaServer.answer, hdelete]
  · refine ⟨_, _, store, .error (.notFound key), hhandle, ?_, hstore, follows_raise (.notFound key)⟩
    simp only [MetaServer.answer, hdelete]

theorem follows_deleted (key : String) : Follows rt members (fun _ _ => True)
    ((MetaClient.delete key : MetaClient Json _).bind fun _ => MetaClient.ok ()) (StoreClient.delete key) := by
  have hdelete : Follows rt members (fun _ _ => True) ((MetaClient.delete key : MetaClient Json _).bind fun _ =>
      MetaClient.ok ()) ((StoreClient.delete key).bind fun _ => StoreClient.ok ()) :=
    (follows_delete key).andThen (follows_ok trivial)
  rwa [StoreClient.ok, Client.bind_done] at hdelete

theorem follows_deleteIfExists (key : String) : Follows rt members (fun _ _ => True)
    (MetaClient.deleteIfExists key : MetaClient Json _) (StoreClient.deleteIfExists key) :=
  Client.Refines.tryCatch (follows_deleted key) fun _ _ _ => follows_ok trivial

end Writing

section Operations

variable (rt members) in
/-- What the operation sends fits into requests. -/
def StoreOperation.Fits : StoreOperation Obj → Prop
  | putObject _ obj => rt.Sends obj
  | addObjectToSet _ obj => obj ∈ members
  | barrier _ rank _ _ _ => rt.intObject rank ∈ members
  | _ => True

def StoreOperation.client : StoreOperation Obj → ClientOperation Obj Json
  | putObject key obj => .putObject key obj
  | addObjectToSet key obj => .addObjectToSet key obj
  | getObject key polls defaultValue => .getObject key polls defaultValue
  | getObjectThenDelete key polls => .getObjectThenDelete key polls
  | getSet key => .getSet key
  | waitKey key polls => .waitKey key polls
  | waitSetUntilSize key size polls rounds deleteAfterWait =>
    .waitSetUntilSize key size polls rounds deleteAfterWait
  | barrier key rank worldSize polls rounds => .barrier key rank worldSize polls rounds
  | hasKey key => .hasKey key
  | delete key => .delete key
  | deleteIfExists key => .deleteIfExists key

/-- A response only says that the operation has succeeded. -/
inductive ShowsValue (rt : Runtime Obj Json) (members : Finset Obj) : ClientValue Obj Json → StoreValue Obj → Prop where
  | none : ShowsValue rt members .none .none
  | response (result : Response Json) : ShowsValue rt members (.response result) .none
  | object {obj : Option Obj} {stored : Option (Stored Obj)} (h : Shows rt members obj stored) :
      ShowsValue rt members (.object obj) (.stored stored)
  | flag (value : Bool) : ShowsValue rt members (.flag value) (.flag value)

variable (hrt : rt.Lossless) (hmembers : rt.Collects members)
include hrt hmembers

theorem follows_waitSetUntilSize (key : String) (size polls : ℕ) (rounds : List ℕ) (deleteAfterWait : Bool) :
    Follows rt members (fun _ _ => True) (MetaClient.waitSetUntilSize rt key size polls rounds deleteAfterWait)
      (StoreClient.waitSetUntilSize (objectLength rt) key size polls rounds deleteAfterWait) := by
  apply (follows_waitSet hrt hmembers key size polls rounds).andThen
  cases deleteAfterWait with
  | false => exact follows_ok trivial
  | true => exact follows_deleteIfExists key

theorem follows_getObjectThenDelete (key : String) (polls : ℕ) : Follows rt members (fun _ _ => True)
    (MetaClient.getObjectThenDelete rt key polls) (StoreClient.getObjectThenDelete key polls) := by
  exact (follows_getObject hrt hmembers key (some polls) .none).andThen (follows_deleted key)

theorem follows_barrier (key : String) {rank : ℕ} (hrank : rt.intObject rank ∈ members) (worldSize polls : ℕ)
    (rounds : List ℕ) : Follows rt members (fun _ _ => True) (MetaClient.barrier rt key rank worldSize polls rounds)
      (StoreClient.barrier (objectLength rt) rt.intObject key rank worldSize polls rounds) := by
  apply (follows_addObjectToSet hrt hmembers key hrank).andThen
  apply (follows_waitSetUntilSize hrt hmembers key worldSize polls rounds false).andThen
  split_ifs
  · exact follows_deleteIfExists key
  · exact follows_ok trivial

theorem program_follows {op : StoreOperation Obj} (hop : op.Fits rt members) :
    Follows rt members (ShowsValue rt members) (op.client.program rt) (op.program (objectLength rt) rt.intObject) := by
  have hnone : ∀ {client : MetaClient Json Unit} {client' : StoreClient Obj Unit},
      Follows rt members (fun _ _ => True) client client' → Follows rt members (ShowsValue rt members)
        (client.bind fun _ => MetaClient.ok .none) (client'.bind fun _ => StoreClient.ok .none) :=
    fun h => h.andThen (follows_ok .none)
  have hresponse : ∀ {client : MetaClient Json (Response Json)} {client' : StoreClient Obj Unit},
      Follows rt members (fun _ _ => True) client client' → Follows rt members (ShowsValue rt members)
        (client.bind fun result => MetaClient.ok (.response result)) (client'.bind fun _ => StoreClient.ok .none) :=
    fun h => h.bind fun result _ _ => follows_ok (.response result)
  have hobject : ∀ {client : MetaClient Json (Option Obj)} {client' : StoreClient Obj (Option (Stored Obj))},
      Follows rt members (Shows rt members) client client' → Follows rt members (ShowsValue rt members)
        (client.bind fun obj => MetaClient.ok (.object obj))
        (client'.bind fun value => StoreClient.ok (.stored value)) :=
    fun h => h.bind fun _ _ hshows => follows_ok (.object hshows)
  cases op with
  | putObject key obj => exact hresponse (follows_putObject hrt key hop)
  | addObjectToSet key obj => exact hresponse (follows_addObjectToSet hrt hmembers key hop)
  | getObject key polls defaultValue =>
    apply hobject (follows_getObject hrt hmembers key polls _)
    cases defaultValue with
    | none => exact .none
    | some obj => exact .object obj
  | getObjectThenDelete key polls => exact hnone (follows_getObjectThenDelete hrt hmembers key polls)
  | getSet key => exact hobject (follows_getObject hrt hmembers key none .none)
  | waitKey key polls => exact hnone (follows_waitKey key polls)
  | waitSetUntilSize key size polls rounds deleteAfterWait =>
    exact hnone (follows_waitSetUntilSize hrt hmembers key size polls rounds deleteAfterWait)
  | barrier key rank worldSize polls rounds =>
    exact hnone (follows_barrier hrt hmembers key hop worldSize polls rounds)
  | hasKey key =>
    apply (follows_hasKey key).bind
    rintro found _ rfl
    exact follows_ok (.flag found)
  | delete key => exact hresponse (follows_delete key)
  | deleteIfExists key => exact hnone (follows_deleteIfExists key)

end Operations

end Programs

/-- The clients of the meta server after the events. -/
def runClients (rt : Runtime Obj Json) (server : ServerState Obj) (events : List (ClientEvent (StoreOperation Obj))) :
    System (ServerState Obj) Request (Response Json) LostResponse ClientError (ClientValue Obj Json) :=
  (System.start server .none).run (handle rt) (fun op => op.client.program rt) events

def runStore (rt : Runtime Obj Json) (store : MetaServer String Obj)
    (events : List (ClientEvent (StoreOperation Obj))) :
    System (MetaServer String Obj) (StoreRequest Obj) (StoreAnswer Obj) Empty StoreError (StoreValue Obj) :=
  (System.start store .none).run MetaServer.answer (StoreOperation.program (objectLength rt) rt.intObject) events

theorem runClients_refines {rt : Runtime Obj Json} {members : Finset Obj} (hrt : rt.Lossless)
    (hmembers : rt.Collects members) {server : ServerState Obj} {store : MetaServer String Obj}
    (h : KeepsStore rt members server store) {events : List (ClientEvent (StoreOperation Obj))}
    (hfits : ∀ i op, .call i op ∈ events → op.Fits rt members) :
    (runClients rt server events).Refines (handle rt) MetaServer.answer (KeepsStore rt members) Reports
      (ShowsValue rt members) (runStore rt store events) := by
  apply System.Refines.run
  · exact ⟨h, fun _ => (follows_ok .none : Follows rt members _ _ _)⟩
  · intro i op hop
    exact program_follows hrt hmembers (hfits i op hop)

/-- However the requests of the clients interleave, the server keeps what the store keeps, and each client is
where it is with the store. -/
theorem clients_refine_store (rt : Runtime Obj Json) (members : Finset Obj) (hrt : rt.Lossless)
    (hmembers : rt.Collects members) (server : ServerState Obj) (store : MetaServer String Obj)
    (h : KeepsStore rt members server store) (events : List (ClientEvent (StoreOperation Obj)))
    (hfits : ∀ i op, .call i op ∈ events → op.Fits rt members) :
    KeepsStore rt members (runClients rt server events).server (runStore rt store events).server ∧
      ∀ i, ((runClients rt server events).client i).EndsLike Reports (ShowsValue rt members)
        ((runStore rt store events).client i) := by
  obtain ⟨hserver, hclients⟩ := runClients_refines hrt hmembers h hfits
  exact ⟨hserver, fun i => (hclients i).endsLike⟩

/-- Ranks 0 and 1, and the sets of them. -/
inductive RankObject where
  | rank (n : Fin 2)
  | ranks (zero one : Bool)
  deriving DecidableEq

def RankObject.pickle : RankObject → Bytes
  | rank n => [0x80, 4, 0x4B, UInt8.ofNat n, 0x2E]
  | ranks false false => [0x80, 4, 0x8F, 0x94, 0x2E]
  | ranks true false => [0x80, 4, 0x8F, 0x94, 0x28, 0x4B, 0, 0x90, 0x2E]
  | ranks false true => [0x80, 4, 0x8F, 0x94, 0x28, 0x4B, 1, 0x90, 0x2E]
  | ranks true true => [0x80, 4, 0x8F, 0x94, 0x28, 0x4B, 0, 0x4B, 1, 0x90, 0x2E]

def rankObjects : List RankObject :=
  [.rank 0, .rank 1, .ranks false false, .ranks true false, .ranks false true, .ranks true true]

def rankRuntime : Runtime RankObject Unit where
  pickleDumps obj := .ok obj.pickle
  pickleLoads data := match rankObjects.find? (fun obj => obj.pickle = data) with
    | some obj => .ok obj
    | none => .error (.other "invalid load key")
  setObject objects := .ranks (.rank 0 ∈ objects) (.rank 1 ∈ objects)
  intObject n := .rank (Fin.ofNat 2 n)
  hashable
    | .rank _ => true
    | .ranks _ _ => false
  typeName
    | .rank _ => "int"
    | .ranks _ _ => "set"
  sameMember := (· = ·)
  length
    | .rank _ => .error (.other "object of type 'int' has no len()")
    | .ranks zero one => .ok (zero.toNat + one.toNat)
  jsonLoads _ := .error (.value "Expecting value")
  jsonDumps _ := .ok []
  requestJson _ := .error (.value "Expecting value")
  readBody := .ok
  traceback e := e.text

def twoRanks : Finset RankObject := {.rank 0, .rank 1}

theorem rankRuntime_lossless : rankRuntime.Lossless := by
  intro obj data h
  obtain rfl := Except.ok.inj h
  rcases obj with n | ⟨_ | _, _ | _⟩
  · revert n
    decide
  all_goals decide

theorem rankRuntime_sends (obj : RankObject) : rankRuntime.Sends obj := by
  rcases obj with n | ⟨_ | _, _ | _⟩
  all_goals exact ⟨_, rfl, rfl⟩

theorem rankRuntime_collects : rankRuntime.Collects twoRanks := by
  refine ⟨fun obj _ => rankRuntime_sends obj, by decide, fun _ _ _ _ => decide_eq_true_iff, ?_, ?_⟩
  · intro objects _
    obtain ⟨binary, hbinary, _⟩ := rankRuntime_sends (rankRuntime.setObject objects.val)
    exact ⟨binary, hbinary⟩
  · have hlength : ∀ objects ∈ twoRanks.powerset,
        (decide (RankObject.rank 0 ∈ objects)).toNat + (decide (RankObject.rank 1 ∈ objects)).toNat = objects.card := by
      decide
    intro objects hsub
    exact congrArg Except.ok (hlength objects (Finset.mem_powerset.mpr hsub))

def freshServer : ServerState RankObject := ⟨Dict.empty, 0, "localhost", 8080⟩

/-- Both ranks meet in a barrier, and rank 0 cleans up. -/
def barrierEvents : List (ClientEvent (StoreOperation RankObject)) :=
  [.call 0 (.barrier "key" 0 2 1 []), .call 1 (.barrier "key" 1 2 1 []), .serve 0, .serve 1, .serve 0, .serve 1,
    .serve 0, .serve 1, .serve 0]

theorem clients_refine_store_twoRanks :
    (KeepsStore rankRuntime twoRanks (runClients rankRuntime freshServer barrierEvents).server
        (runStore rankRuntime ⟨fun _ => none⟩ barrierEvents).server ∧
      ∀ i, ((runClients rankRuntime freshServer barrierEvents).client i).EndsLike Reports
        (ShowsValue rankRuntime twoRanks) ((runStore rankRuntime ⟨fun _ => none⟩ barrierEvents).client i)) ∧
    (runStore rankRuntime ⟨fun _ => none⟩ barrierEvents).server.hasKey "key" = false ∧
      ∀ i < 2, ∃ value, (runStore rankRuntime ⟨fun _ => none⟩ barrierEvents).client i = .done (.ok value) := by
  refine ⟨clients_refine_store rankRuntime twoRanks rankRuntime_lossless rankRuntime_collects _ _ ?_ _ ?_,
    by decide, ?_⟩
  · intro key
    exact .absent
  · intro i op hop
    simp only [barrierEvents, List.mem_cons, List.not_mem_nil, reduceCtorEq, ClientEvent.call.injEq, or_false] at hop
    rcases hop with ⟨-, rfl⟩ | ⟨-, rfl⟩
    · exact Finset.mem_insert_self (RankObject.rank 0) _
    · exact Finset.mem_insert_of_mem (Finset.mem_singleton_self (RankObject.rank 1))
  · intro i hi
    interval_cases i
    · exact ⟨_, rfl⟩
    · exact ⟨_, rfl⟩

end Awex
