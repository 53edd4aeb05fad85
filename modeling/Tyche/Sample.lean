import Tyche.Types

-- Modules and jobs on the wire, for runs of the engines: maps in the msgpack format.
namespace Sample

def worker (n : ℕ) : ModuleId :=
  .generate (utf8 "w") ⟨n % 2 ^ 24, Nat.mod_lt n <| by decide⟩

def packedString (s : String) : Bytes :=
  [0xa0 + .ofNat s.length] ++ utf8 s

def packed (msgType corrId : String) : Bytes :=
  [0x85] ++ packedString "msg_type" ++ packedString msgType ++
  packedString "sender" ++ packedString "s" ++ packedString "event" ++ packedString "t" ++
  packedString "payload" ++ [0x80] ++ packedString "correlation_id" ++ packedString corrId

def frames (identity : Bytes) (msgType corrId : String) : List Bytes :=
  [identity, [], utf8 "t", packed msgType corrId]

end Sample
