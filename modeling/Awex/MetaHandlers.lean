import Awex.Library.Dict
import Mathlib.Algebra.Group.Nat.Defs
import Mathlib.Data.Multiset.Count

namespace Awex

abbrev Bytes := List UInt8

/-- What a handler raises: an HTTP exception with its status, a `ValueError` or something else. -/
inductive ServerException where
  | http (status : ℕ) (reason : String)
  | value (text : String)
  | other (text : String)
  deriving DecidableEq, Repr

def ServerException.text : ServerException → String
  | .http _ reason => reason
  | .value text | .other text => text

/-- The libraries the server is written with: pickle and json, sets of objects and the HTTP layer. An object is what was
unpickled; `sameMember` is whether a set takes a newly unpickled object for the member that it has. -/
structure Runtime (Obj Json : Type) where
  pickleDumps : Obj → Except ServerException Bytes
  pickleLoads : Bytes → Except ServerException Obj
  setObject : Multiset Obj → Obj
  intObject : ℕ → Obj
  hashable : Obj → Bool
  typeName : Obj → String
  sameMember : Obj → Obj → Bool
  length : Obj → Except ServerException ℕ
  jsonLoads : Bytes → Except ServerException Json
  jsonDumps : Json → Except ServerException Bytes
  requestJson : Bytes → Except ServerException Json
  readBody : Bytes → Except ServerException Bytes
  traceback : ServerException → String

inductive StoredValue (Obj : Type) where
  | bytes (data : Bytes)
  | members (objects : Multiset Obj)

structure ServerState (Obj : Type) where
  storage : Dict String (StoredValue Obj)
  idCounter : ℕ
  host : String
  port : ℕ

/-- `binary` is the answer without a success flag. -/
inductive Response (Json : Type) where
  | binary (body : Bytes)
  | failure (status : ℕ) (error : String)
  | message (text : String)
  | data (json : Json)
  | healthy (storageSize : ℕ) (address : String) (port : ℕ)
  | hasKey (found : Bool)
  | keys (keys : List String)
  | id (newId : ℕ)
  deriving DecidableEq, Repr

inductive Request where
  | getBinary (key : String)
  | putBinary (key : String) (body : Bytes)
  | addObjectToSet (key : String) (body : Bytes)
  | getJson (key : String)
  | putJson (key : String) (body : Bytes)
  | delete (key : String)
  | healthCheck
  | listKeys
  | hasKey (key : String)
  | allocateAutoGrowId
  deriving DecidableEq, Repr

def Response.status {Json : Type} : Response Json → ℕ
  | .failure status _ => status
  | _ => 200

/-- The response reports `success=False`. -/
def Response.Failed {Json : Type} : Response Json → Prop
  | .failure _ _ => True
  | _ => False

instance {Json : Type} (response : Response Json) : Decidable response.Failed :=
  match response with
  | .failure _ _ => isTrue trivial
  | .binary _ | .message _ | .data _ | .healthy _ _ _ | .hasKey _ | .keys _ | .id _ => isFalse id

/-- `struct.pack("!I", dataLen)`. -/
def packLength (dataLen : ℕ) : Except ServerException Bytes :=
  if dataLen < 2 ^ 32 then
    .ok [UInt8.ofNat (dataLen / 2 ^ 24), UInt8.ofNat (dataLen / 2 ^ 16), UInt8.ofNat (dataLen / 2 ^ 8),
      UInt8.ofNat dataLen]
  else .error (.other "argument out of range")

/-- `struct.unpack("!I", head)[0]`. -/
def unpackLength (head : Bytes) : Except ServerException ℕ :=
  match head with
  | [a, b, c, d] => .ok (a.toNat * 2 ^ 24 + b.toNat * 2 ^ 16 + c.toNat * 2 ^ 8 + d.toNat)
  | _ => .error (.other "unpack requires a buffer of 4 bytes")

namespace Runtime

variable {Obj Json : Type} (rt : Runtime Obj Json)

def toBinary (data : Obj) : Except ServerException Bytes := do
  let pickledData ← rt.pickleDumps data
  let head ← packLength pickledData.length
  .ok (head ++ pickledData)

def fromBinary (binary : Bytes) : Except ServerException Obj := do
  let dataLen ← unpackLength (binary.take 4)
  rt.pickleLoads ((binary.drop 4).take dataLen)

/-- `set.add`. -/
def addMember (obj : Obj) (objects : Multiset Obj) : Multiset Obj :=
  if 0 < objects.countP (fun member => rt.sameMember member obj = true) then objects else obj ::ₘ objects

def unhashable (obj : Obj) : ServerException := .other ("unhashable type: '" ++ rt.typeName obj ++ "'")

end Runtime

namespace ServerState

variable {Obj : Type} (server : ServerState Obj)

def get? (key : String) : Option (StoredValue Obj) := server.storage.get? key

def put (key : String) (value : StoredValue Obj) : ServerState Obj :=
  { server with storage := server.storage.set key value }

/-- `MetaServer.delete`. -/
def delete (key : String) : Except ServerException (ServerState Obj) :=
  if (server.get? key).isSome then .ok { server with storage := server.storage.erase key }
  else .error (.value ("Key '" ++ key ++ "' not found in storage"))

end ServerState

section Handlers

variable {Obj Json : Type} (rt : Runtime Obj Json) (server : ServerState Obj)

def notFound (key : String) : Response Json := .failure 404 ("Key '" ++ key ++ "' not found")

def getBinaryHandler (key : String) : Response Json :=
  match server.get? key with
  | none => notFound key
  | some (.bytes data) => .binary data
  | some (.members objects) => match rt.toBinary (rt.setObject objects) with
    | .ok binaryData => .binary binaryData
    | .error e => .failure 500 ("Failed to serialize object: " ++ e.text)

def putBinaryHandler (key : String) (body : Bytes) : Except ServerException (ServerState Obj × Response Json) := do
  let data ← rt.readBody body
  .ok (server.put key (.bytes data), .message ("Binary data stored for key '" ++ key ++ "'"))

def deserializeFailure (e : ServerException) : Response Json :=
  .failure 500 ("Failed to deserialize object: " ++ e.text)

/-- `self.storage[key].add(obj)`. -/
def addToSet (key : String) (obj : Obj) : Except ServerException (ServerState Obj) :=
  match server.get? key with
  | some (.members objects) =>
    if rt.hashable obj then .ok (server.put key (.members (rt.addMember obj objects)))
    else .error (rt.unhashable obj)
  | some (.bytes _) => .error (.other "'bytes' object has no attribute 'add'")
  | none => .error (.other key)

def addObjectToSetHandler (key : String) (body : Bytes) : ServerState Obj × Response Json :=
  match rt.readBody body >>= rt.fromBinary with
  | .error e => (server, deserializeFailure e)
  | .ok obj =>
    let server := if (server.get? key).isSome then server else server.put key (.members 0)
    match addToSet rt server key obj with
    | .ok server => (server, .message ("Object stored for key '" ++ key ++ "'"))
    | .error e => (server, deserializeFailure e)

def getJsonHandler (key : String) : Response Json :=
  match server.get? key with
  | none => notFound key
  | some (.bytes data) => match rt.jsonLoads data with
    | .ok json => .data json
    | .error e => .failure 500 ("Failed to parse JSON: " ++ e.text)
  | some (.members _) => .failure 500 "Failed to parse JSON: 'set' object has no attribute 'decode'"

def putJsonHandler (key : String) (body : Bytes) : ServerState Obj × Response Json :=
  match rt.readBody body >>= rt.requestJson >>= rt.jsonDumps with
  | .ok data => (server.put key (.bytes data), .message ("JSON data stored for key '" ++ key ++ "'"))
  | .error e => (server, .failure 500 ("Failed to store JSON: " ++ e.text))

def deleteHandler (key : String) : ServerState Obj × Response Json :=
  match server.delete key with
  | .ok server => (server, .message ("Key '" ++ key ++ "' deleted"))
  | .error (.value text) => (server, .failure 404 text)
  | .error e => (server, .failure 500 ("An error occurred during deletion: " ++ rt.traceback e ++ "."))

def allocateAutoGrowIdHandler : ServerState Obj × Response Json :=
  ({ server with idCounter := server.idCounter + 1 }, .id server.idCounter)

/-- What the middleware makes of an exception that a handler does not catch. -/
def errorResponse (e : ServerException) : Response Json :=
  match e with
  | .http status reason => .failure status reason
  | e => .failure 500 ("An error occurred: " ++ rt.traceback e ++ ".")

def handle (request : Request) : ServerState Obj × Response Json :=
  match request with
  | .getBinary key => (server, getBinaryHandler rt server key)
  | .putBinary key body => match putBinaryHandler rt server key body with
    | .ok result => result
    | .error e => (server, errorResponse rt e)
  | .addObjectToSet key body => addObjectToSetHandler rt server key body
  | .getJson key => (server, getJsonHandler rt server key)
  | .putJson key body => putJsonHandler rt server key body
  | .delete key => deleteHandler rt server key
  | .healthCheck => (server, .healthy server.storage.entries.length server.host server.port)
  | .listKeys => (server, .keys server.storage.keys)
  | .hasKey key => (server, .hasKey (server.get? key).isSome)
  | .allocateAutoGrowId => allocateAutoGrowIdHandler server

end Handlers

end Awex
