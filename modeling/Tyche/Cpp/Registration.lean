import Tyche.Cpp.Registry
import Tyche.Cpp.Serialization

namespace Cpp

open Msgpack

def interfacePatternFromStr (s : Bytes) : InterfacePattern :=
  if s = utf8 "on" then .on
  else if s = utf8 "send" then .send
  else if s = utf8 "handle" then .handle
  else if s = utf8 "request" then .request
  else .on

namespace Registry

-- One entry of the map that an interface is. An enumeration takes any integer.
def readInterfaceEntry (i : Interface) : Object × Object → Interface
  | (.str key, val) =>
    if key = utf8 "name" then
      { i with name := (unpackString val).getD i.name }
    else if key = utf8 "pattern" then
      { i with pattern := ((unpackString val).map interfacePatternFromStr).getD i.pattern }
    else if key = utf8 "event_type" then
      { i with eventType := (unpackString val).getD i.eventType }
    else if key = utf8 "durability" then
      { i with durability := (unpackDurability val).getD i.durability }
    else i
  | _ => i

def readInterface (kvs : List (Object × Object)) : Interface :=
  let i := kvs.foldl readInterfaceEntry {}
  if i.eventType = [] then { i with eventType := i.name } else i

def interface? : Object → Option Interface
  | .map kvs => some <| readInterface kvs
  | _        => none

def payloadInterfaces : Object × Object → List Interface
  | (.str key, .array os) => if key = utf8 "interfaces" then os.filterMap interface? else []
  | _                     => []

def messageInterfaces : Object × Object → List Interface
  | (.str key, .map kvs) => if key = utf8 "payload" then kvs.flatMap payloadInterfaces else []
  | _                    => []

-- The interfaces are read from the packed message.
def readInterfaces : Object → List Interface
  | .map kvs => kvs.flatMap messageInterfaces
  | _        => []

-- The cast of a family name that is not a string throws.
def familyName (msg : Message) : Option Bytes :=
  match msg.payload.lookup (utf8 "family_name") with
  | some (.string s) => some s
  | some _           => none
  | none             => some <| if msg.sender = [] then utf8 "unknown" else msg.sender

-- A registration is accepted if a module info is recorded for it. The id is made from the name of
-- the family and the modules that are there.
def processRegistration (generate : Dict Bytes ModuleInfo → Bytes → Bytes) (s : Registry)
    (ts : List Token) : Option ModuleInfo × Registry :=
  match deserialize ts, unpack ts with
  | some msg, some o =>
    if msg.msgType = .register then
      match familyName msg with
      | none        => (none, s)
      | some family =>
        let info := { moduleId := generate s.modules family, interfaces := readInterfaces o }
        (some info, s.registerModule info)
    else
      (none, s)
  | _, _             => (none, s)

end Registry

end Cpp
