import Awex.Library.Retry
import Awex.MetaHandlers

namespace Awex

open Retry

inductive LostResponse where
  | connectTimeout
  | readTimeout
  | connectionError
  deriving DecidableEq, Repr

inductive ClientError where
  | lost (loss : LostResponse)
  | keyNotFound (key : String)
  | http (status : ℕ)
  | timeout (key : String)
  | setTimeout (key : String) (size : ℕ)
  | putFailed (key error : String)
  | addFailed (key error : String)
  | exception (e : ServerException)
  | noLength
  deriving DecidableEq, Repr

inductive ClientValue (Obj Json : Type) where
  | none
  | content (data : Bytes)
  | object (obj : Option Obj)
  | response (result : Response Json)
  | json (data : Option Json)
  | flag (value : Bool)
  | keys (keys : List String)
  | id (value : ℕ)
  deriving DecidableEq, Repr

abbrev MetaClient (Json α : Type) := Client Request (Response Json) LostResponse ClientError α

namespace MetaClient

variable {Obj Json α : Type}

def ok (a : α) : MetaClient Json α := .done (.ok a)

def raise (e : ClientError) : MetaClient Json α := .done (.error e)

def ofExcept : Except ServerException α → MetaClient Json α
  | .ok a => ok a
  | .error e => raise (.exception e)

def send (request : Request) : MetaClient Json (Response Json) :=
  Client.send request (fun
    | .ok response => ok response
    | .error loss => raise (.lost loss))

def raiseForStatus (response : Response Json) : MetaClient Json (Response Json) :=
  if 400 ≤ response.status then raise (.http response.status) else ok response

def checked (request : Request) : MetaClient Json (Response Json) := (send request).bind raiseForStatus

def contentOf : Response Json → Bytes
  | .binary body => body
  | _ => []

def hasKey (key : String) : MetaClient Json Bool :=
  (checked (.hasKey key)).bind (fun
    | .hasKey found => ok found
    | _ => ok false)

/-- `_has_key`. -/
def hasKeyOrTimeout (key : String) : MetaClient Json Bool :=
  (hasKey key).tryCatch (fun
    | .lost .connectTimeout | .lost .readTimeout => ok false
    | e => raise e)

/-- The loop of `wait_key`, whose timeout allows `polls` more polls. -/
def pollKey (key : String) : ℕ → MetaClient Json Bool
  | 0 => hasKeyOrTimeout key
  | polls + 1 => (hasKeyOrTimeout key).bind (fun found => if found then ok true else pollKey key polls)

def waitKey (key : String) (polls : ℕ) : MetaClient Json Unit :=
  (pollKey key polls).bind (fun found => if found then ok () else raise (.timeout key))

def getBinary (key : String) (polls : Option ℕ) : MetaClient Json Bytes :=
  let fetch := (send (.getBinary key)).bind (fun response =>
    if response.status = 404 then raise (.keyNotFound key)
    else (raiseForStatus response).bind (fun response => ok (contentOf response)))
  match polls with
  | none => fetch
  | some polls => (waitKey key polls).bind (fun _ => fetch)

def putBinary (key : String) (binary : Bytes) : MetaClient Json (Response Json) :=
  checked (.putBinary key binary)

section Objects

variable (rt : Runtime Obj Json)

def fetchObject (key : String) (defaultValue : Option Obj) : MetaClient Json (Option Obj) :=
  (send (.getBinary key)).bind (fun response =>
    if response.status = 404 then ok defaultValue
    else (raiseForStatus response).bind (fun response =>
      (ofExcept (rt.fromBinary (contentOf response))).bind (fun obj => ok (some obj))))

def getObject (key : String) (polls : Option ℕ) (defaultValue : Option Obj) : MetaClient Json (Option Obj) :=
  match polls with
  | none => fetchObject rt key defaultValue
  | some polls => (pollKey key polls).bind (fun found =>
    if found then fetchObject rt key defaultValue
    else match defaultValue with
      | some obj => ok (some obj)
      | none => raise (.timeout key))

def putObject (key : String) (obj : Obj) : MetaClient Json (Response Json) :=
  (ofExcept (rt.toBinary obj)).bind (fun binaryData => (checked (.putBinary key binaryData)).bind (fun
    | .failure _ error => raise (.putFailed key error)
    | result => ok result))

def addObjectToSet (key : String) (obj : Obj) : MetaClient Json (Response Json) :=
  (ofExcept (rt.toBinary obj)).bind (fun binaryData => (checked (.addObjectToSet key binaryData)).bind (fun
    | .failure _ error => raise (.addFailed key error)
    | result => ok result))

def getJson (key : String) : MetaClient Json (Option Json) :=
  (send (.getJson key)).bind (fun response =>
    if response.status = 404 then raise (.keyNotFound key)
    else (raiseForStatus response).bind (fun
      | .data json => ok (some json)
      | _ => ok none))

def putJson (key : String) (jsonData : Json) : MetaClient Json (Response Json) :=
  (ofExcept (rt.jsonDumps jsonData)).bind (fun body => checked (.putJson key body))

def delete (key : String) : MetaClient Json (Response Json) := checked (.delete key)

def deleteIfExists (key : String) : MetaClient Json Unit :=
  ((delete key).bind (fun _ => ok ())).tryCatch (fun _ => ok ())

def getObjectThenDelete (key : String) (polls : ℕ) : MetaClient Json Unit :=
  (getObject rt key (some polls) none).bind (fun _ => (delete key).bind (fun _ => ok ()))

/-- The loop of `wait_set_until_size`, with the polls of each of its rounds. -/
def waitSet (key : String) (size : ℕ) : ℕ → List ℕ → MetaClient Json Unit
  | polls, rounds => (getObject rt key (some polls) (some (rt.setObject ∅))).bind (fun
    | none => raise .noLength
    | some currentSet => (ofExcept (rt.length currentSet)).bind (fun length =>
      if size ≤ length then ok ()
      else match rounds with
        | [] => raise (.setTimeout key size)
        | polls :: rounds => waitSet key size polls rounds))

def waitSetUntilSize (key : String) (size polls : ℕ) (rounds : List ℕ) (deleteAfterWait : Bool) :
    MetaClient Json Unit :=
  (waitSet rt key size polls rounds).bind (fun _ => if deleteAfterWait then deleteIfExists key else ok ())

def barrier (key : String) (rank worldSize polls : ℕ) (rounds : List ℕ) : MetaClient Json Unit :=
  (addObjectToSet rt key (rt.intObject rank)).bind (fun _ =>
    (waitSetUntilSize rt key worldSize polls rounds false).bind (fun _ =>
      if rank = 0 then deleteIfExists key else ok ()))

end Objects

def healthCheck : MetaClient Json (Response Json) := checked .healthCheck

def listKeys : MetaClient Json (List String) :=
  (checked .listKeys).bind (fun
    | .keys keys => ok keys
    | _ => ok [])

def allocateAutoGrowId : MetaClient Json ℕ :=
  (checked .allocateAutoGrowId).bind (fun
    | .id newId => ok newId
    | _ => raise (.exception (.other "int() argument must be a string or a number")))

end MetaClient

/-- The operations of `MetaServerClient`. A waiting operation polls until its timeout is over. -/
inductive ClientOperation (Obj Json : Type) where
  | getBinary (key : String) (polls : Option ℕ)
  | putBinary (key : String) (binary : Bytes)
  | getObjectThenDelete (key : String) (polls : ℕ)
  | waitKey (key : String) (polls : ℕ)
  | getObject (key : String) (polls : Option ℕ) (defaultValue : Option Obj)
  | putObject (key : String) (obj : Obj)
  | addObjectToSet (key : String) (obj : Obj)
  | getSet (key : String)
  | waitSetUntilSize (key : String) (size polls : ℕ) (rounds : List ℕ) (deleteAfterWait : Bool)
  | barrier (key : String) (rank worldSize polls : ℕ) (rounds : List ℕ)
  | getJson (key : String)
  | putJson (key : String) (jsonData : Json)
  | delete (key : String)
  | deleteIfExists (key : String)
  | healthCheck
  | hasKey (key : String)
  | listKeys
  | allocateAutoGrowId

namespace ClientOperation

variable {Obj Json : Type} (rt : Runtime Obj Json)

def program : ClientOperation Obj Json → MetaClient Json (ClientValue Obj Json)
  | getBinary key polls => (MetaClient.getBinary key polls).bind (fun data => MetaClient.ok (.content data))
  | putBinary key binary => (MetaClient.putBinary key binary).bind (fun result => MetaClient.ok (.response result))
  | getObjectThenDelete key polls =>
    (MetaClient.getObjectThenDelete rt key polls).bind (fun _ => MetaClient.ok .none)
  | waitKey key polls => (MetaClient.waitKey key polls).bind (fun _ => MetaClient.ok .none)
  | getObject key polls defaultValue =>
    (MetaClient.getObject rt key polls defaultValue).bind (fun obj => MetaClient.ok (.object obj))
  | putObject key obj => (MetaClient.putObject rt key obj).bind (fun result => MetaClient.ok (.response result))
  | addObjectToSet key obj =>
    (MetaClient.addObjectToSet rt key obj).bind (fun result => MetaClient.ok (.response result))
  | getSet key => (MetaClient.getObject rt key none none).bind (fun obj => MetaClient.ok (.object obj))
  | waitSetUntilSize key size polls rounds deleteAfterWait =>
    (MetaClient.waitSetUntilSize rt key size polls rounds deleteAfterWait).bind (fun _ => MetaClient.ok .none)
  | barrier key rank worldSize polls rounds =>
    (MetaClient.barrier rt key rank worldSize polls rounds).bind (fun _ => MetaClient.ok .none)
  | getJson key => (MetaClient.getJson key).bind (fun data => MetaClient.ok (.json data))
  | putJson key jsonData => (MetaClient.putJson rt key jsonData).bind (fun result => MetaClient.ok (.response result))
  | delete key => (MetaClient.delete key).bind (fun result => MetaClient.ok (.response result))
  | deleteIfExists key => (MetaClient.deleteIfExists key).bind (fun _ => MetaClient.ok .none)
  | healthCheck => MetaClient.healthCheck.bind (fun result => MetaClient.ok (.response result))
  | hasKey key => (MetaClient.hasKey key).bind (fun found => MetaClient.ok (.flag found))
  | listKeys => MetaClient.listKeys.bind (fun keys => MetaClient.ok (.keys keys))
  | allocateAutoGrowId => MetaClient.allocateAutoGrowId.bind (fun newId => MetaClient.ok (.id newId))

variable [DecidableEq Obj]

/-- `max_retries` of the wrapper, without the first attempt. -/
def retries : ℕ := 9

def run (op : ClientOperation Obj Json) (lost : ℕ → List LostResponse) (server : ServerState Obj) :
    ServerState Obj × Except ClientError (ClientValue Obj Json) :=
  (op.program rt).run (handle rt) retries lost server

def once (op : ClientOperation Obj Json) (server : ServerState Obj) :
    ServerState Obj × Except ClientError (ClientValue Obj Json) :=
  (op.program rt).once (handle rt) retries server

end ClientOperation

end Awex
