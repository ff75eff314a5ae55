import Awex.Library.Clients
import Awex.MetaServer

namespace Awex

open Retry

inductive StoreRequest (β : Type) where
  | putObject (key : String) (obj : β)
  | addObjectToSet (key : String) (obj : β)
  | getObject (key : String)
  | hasKey (key : String)
  | delete (key : String)

inductive StoreAnswer (β : Type) where
  | done
  | stored (value : Option (Stored β))
  | found (value : Bool)
  | error (e : MetaServerError String)

def MetaServer.answer {β : Type} [DecidableEq β] (server : MetaServer String β) :
    StoreRequest β → MetaServer String β × StoreAnswer β
  | .putObject key obj => (server.putObject key obj, .done)
  | .addObjectToSet key obj => match server.addObjectToSet key obj with
    | .ok server' => (server', .done)
    | .error e => (server, .error e)
  | .getObject key => (server, .stored (server.getObject key none))
  | .hasKey key => (server, .found (server.hasKey key))
  | .delete key => match server.delete key with
    | .ok server' => (server', .done)
    | .error e => (server, .error e)

inductive StoreError where
  | server (e : MetaServerError String)
  | timeout (key : String)
  | setTimeout (key : String) (size : ℕ)
  | noLength
  deriving DecidableEq, Repr

abbrev StoreClient (β α : Type) := Client (StoreRequest β) (StoreAnswer β) Empty StoreError α

/-- The operations of a client, on a server that keeps objects and sets and does not fail. -/
inductive StoreOperation (β : Type) where
  | putObject (key : String) (obj : β)
  | addObjectToSet (key : String) (obj : β)
  | getObject (key : String) (polls : Option ℕ) (defaultValue : Option β)
  | getObjectThenDelete (key : String) (polls : ℕ)
  | getSet (key : String)
  | waitKey (key : String) (polls : ℕ)
  | waitSetUntilSize (key : String) (size polls : ℕ) (rounds : List ℕ) (deleteAfterWait : Bool)
  | barrier (key : String) (rank worldSize polls : ℕ) (rounds : List ℕ)
  | hasKey (key : String)
  | delete (key : String)
  | deleteIfExists (key : String)

inductive StoreValue (β : Type) where
  | none
  | stored (value : Option (Stored β))
  | flag (value : Bool)

namespace StoreClient

variable {β α : Type}

def ok (a : α) : StoreClient β α := .done (.ok a)

def raise (e : StoreError) : StoreClient β α := .done (.error e)

def ask (request : StoreRequest β) : StoreClient β (StoreAnswer β) :=
  .send request (fun
    | .ok (.error e) => raise (.server e)
    | .ok answer => ok answer
    | .error loss => loss.elim)

def hasKey (key : String) : StoreClient β Bool :=
  (ask (.hasKey key)).bind (fun
    | .found value => ok value
    | _ => ok false)

def pollKey (key : String) : ℕ → StoreClient β Bool
  | 0 => hasKey key
  | polls + 1 => (hasKey key).bind (fun found => if found then ok true else pollKey key polls)

def waitKey (key : String) (polls : ℕ) : StoreClient β Unit :=
  (pollKey key polls).bind (fun found => if found then ok () else raise (.timeout key))

def fetchObject (key : String) (defaultValue : Option (Stored β)) : StoreClient β (Option (Stored β)) :=
  (ask (.getObject key)).bind (fun
    | .stored (some value) => ok (some value)
    | _ => ok defaultValue)

def getObject (key : String) (polls : Option ℕ) (defaultValue : Option (Stored β)) :
    StoreClient β (Option (Stored β)) :=
  match polls with
  | none => fetchObject key defaultValue
  | some polls => (pollKey key polls).bind (fun found =>
    if found then fetchObject key defaultValue
    else match defaultValue with
      | some value => ok (some value)
      | none => raise (.timeout key))

def putObject (key : String) (obj : β) : StoreClient β Unit := (ask (.putObject key obj)).bind (fun _ => ok ())

def addObjectToSet (key : String) (obj : β) : StoreClient β Unit :=
  (ask (.addObjectToSet key obj)).bind (fun _ => ok ())

def delete (key : String) : StoreClient β Unit := (ask (.delete key)).bind (fun _ => ok ())

def deleteIfExists (key : String) : StoreClient β Unit := (delete key).tryCatch (fun _ => ok ())

def getObjectThenDelete (key : String) (polls : ℕ) : StoreClient β Unit :=
  (getObject key (some polls) none).bind (fun _ => delete key)

variable (objLength : β → Option ℕ)

/-- An object that is put under a key may have a length too. -/
def lengthOf : Stored β → StoreClient β ℕ
  | .members objects => ok objects.card
  | .object obj => match objLength obj with
    | some n => ok n
    | none => raise .noLength

/-- The end of a round of `wait_set_until_size`, which goes on with `retry` while the set is too small. -/
def ifFull (size : ℕ) (retry : StoreClient β Unit) : Option (Stored β) → StoreClient β Unit
  | none => raise .noLength
  | some currentSet => (lengthOf objLength currentSet).bind (fun length => if size ≤ length then ok () else retry)

def waitRound (key : String) (size polls : ℕ) (retry : StoreClient β Unit) : StoreClient β Unit :=
  (getObject key (some polls) (some (.members ∅))).bind (ifFull objLength size retry)

def waitSet (key : String) (size : ℕ) : ℕ → List ℕ → StoreClient β Unit
  | polls, [] => waitRound objLength key size polls (raise (.setTimeout key size))
  | polls, polls' :: rounds => waitRound objLength key size polls (waitSet key size polls' rounds)

def waitSetUntilSize (key : String) (size polls : ℕ) (rounds : List ℕ) (deleteAfterWait : Bool) :
    StoreClient β Unit :=
  (waitSet objLength key size polls rounds).bind (fun _ => if deleteAfterWait then deleteIfExists key else ok ())

variable (intObject : ℕ → β)

def barrier (key : String) (rank worldSize polls : ℕ) (rounds : List ℕ) : StoreClient β Unit :=
  (addObjectToSet key (intObject rank)).bind (fun _ =>
    (waitSetUntilSize objLength key worldSize polls rounds false).bind (fun _ =>
      if rank = 0 then deleteIfExists key else ok ()))

end StoreClient

namespace StoreOperation

variable {β : Type} (objLength : β → Option ℕ) (intObject : ℕ → β)

def program : StoreOperation β → StoreClient β (StoreValue β)
  | putObject key obj => (StoreClient.putObject key obj).bind (fun _ => StoreClient.ok .none)
  | addObjectToSet key obj => (StoreClient.addObjectToSet key obj).bind (fun _ => StoreClient.ok .none)
  | getObject key polls defaultValue => (StoreClient.getObject key polls (defaultValue.map .object)).bind
      (fun value => StoreClient.ok (.stored value))
  | getObjectThenDelete key polls => (StoreClient.getObjectThenDelete key polls).bind (fun _ => StoreClient.ok .none)
  | getSet key => (StoreClient.getObject key none none).bind (fun value => StoreClient.ok (.stored value))
  | waitKey key polls => (StoreClient.waitKey key polls).bind (fun _ => StoreClient.ok .none)
  | waitSetUntilSize key size polls rounds deleteAfterWait =>
    (StoreClient.waitSetUntilSize objLength key size polls rounds deleteAfterWait).bind
      (fun _ => StoreClient.ok .none)
  | barrier key rank worldSize polls rounds =>
    (StoreClient.barrier objLength intObject key rank worldSize polls rounds).bind (fun _ => StoreClient.ok .none)
  | hasKey key => (StoreClient.hasKey key).bind (fun found => StoreClient.ok (.flag found))
  | delete key => (StoreClient.delete key).bind (fun _ => StoreClient.ok .none)
  | deleteIfExists key => (StoreClient.deleteIfExists key).bind (fun _ => StoreClient.ok .none)

end StoreOperation

end Awex
