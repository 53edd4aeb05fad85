import Tyche.Packer
import Tyche.Python.Envelope

namespace Python.Envelope

open Msgpack

variable {encode : List Token → Bytes} {decode : Bytes → List Token} {stack : List Bytes}
variable {identity data frame : Bytes} {frames : List Bytes} {n : ℕ} {envelope : Envelope ObjMessage}

-- The delimiter is the first empty frame.
theorem findIdx?_delimiter (hs : ∀ frame ∈ stack, frame ≠ []) :
    (stack ++ [] :: frames).findIdx? (· = []) = some stack.length := by
  induction stack
  case nil               => rfl
  case cons frame fs hi =>
    rw [List.forall_mem_cons] at hs
    rw [List.cons_append, List.findIdx?_cons, if_neg (by simpa using hs.left), hi hs.right]
    rfl

theorem split_stack (hs : ∀ frame ∈ stack, frame ≠ []) :
    split (stack ++ [[], identity, data]) = .ok (stack, identity, data) := by
  have hi : index (stack ++ [[], identity, data]) [] = .ok stack.length := by
    rw [index, findIdx?_delimiter hs]
  have hd : delimited (stack ++ [[], identity, data]) = .ok (stack, identity, data) := by
    rw [delimited, hi]
    change (item _ (stack.length + 1) >>= fun identity => item _ (stack.length + 2) >>= fun data =>
      Except.ok (List.take stack.length _, identity, data)) = _
    rw [item, List.getElem?_append_right (by omega), Nat.add_sub_cancel_left]
    change (item _ (stack.length + 2) >>= fun data => Except.ok (List.take _ _, identity, data)) = _
    rw [item, List.getElem?_append_right (by omega), Nat.add_sub_cancel_left, List.take_left]
    rfl
  rw [split, hd]

-- Without a stack there is no frame that the second one after could be the data, even if the
-- identity or the data is empty.
theorem split_simple : split [identity, data] = .ok ([], identity, data) := by
  cases identity
  case nil       => rfl
  case cons b bs =>
    cases data <;> rfl

theorem serializeEnvelope_eq : serializeEnvelope encode envelope =
    (envelope.message.packed encode).map fun data =>
      if envelope.routingStack = [] then [envelope.identity, data]
      else envelope.routingStack ++ [[], envelope.identity, data] := by
  rw [serializeEnvelope]
  cases envelope.message.packed encode
  case none      => rfl
  case some data =>
    cases h : envelope.routingStack
    case nil  => rfl
    case cons => simp

-- An envelope is read as it was written, with what the decoder makes of its message.
theorem envelope_roundTrips (hs : ∀ frame ∈ envelope.routingStack, frame ≠ []) :
    (serializeEnvelope encode envelope).map (deserializeEnvelope decode n) =
      (envelope.message.packed encode).map fun data => (unpacked decode n data).map fun message =>
        { identity := envelope.identity, message, routingStack := envelope.routingStack } := by
  rw [serializeEnvelope_eq, Option.map_map]
  refine congrArg (Option.map · _) <| funext fun data => ?_
  dsimp only [Function.comp]
  split
  case isTrue h  => rw [deserializeEnvelope, split_simple, h]; rfl
  case isFalse h => rw [deserializeEnvelope, split_stack hs]; rfl

-- The bytes of a message's tokens, and what they are read as.
def Sample.message : ObjMessage where
  msgType := .event
  sender  := .text "m"
  event   := .text "e"
  payload := .dict [(.text "k", .int 1)]

def Sample.tokens : List Token :=
  Sample.message.serialize.getD []

def Sample.bytesOf (ts : List Token) : Bytes :=
  ((Packer.standard fun _ => []).tokens ts).getD []

def Sample.tokensOf (data : Bytes) : List Token :=
  if data = Sample.bytesOf Sample.tokens then Sample.tokens else []

theorem envelope_roundTrips_sample :
    let envelope : Envelope ObjMessage :=
      { identity := [], message := Sample.message, routingStack := [[1], [2, 3]] }
    (serializeEnvelope Sample.bytesOf envelope).map (deserializeEnvelope Sample.tokensOf 0) =
      (Sample.message.packed Sample.bytesOf).map fun data =>
        (unpacked Sample.tokensOf 0 data).map fun message =>
          { identity := [], message, routingStack := [[1], [2, 3]] } :=
  envelope_roundTrips (by decide)

example : (Sample.message.packed Sample.bytesOf).isSome := by
  decide +kernel

end Python.Envelope
