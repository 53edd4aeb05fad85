import Tyche.Log
import Tyche.Python.Theorems.Broker

namespace Python

open Proc

variable {deserialize : Bytes → Option Message} {works : Output → Bool} {s s' : TycheEngine}
variable {m : ModuleId} {topic : Hashed} {t c : Key} {ref : Ref} {o : Output} {P : Output → Prop}
variable {α : Type} {p : Py α} {msg : Message} {r : Reason}

-- What the operation puts out satisfies `P`.
def Op.Sends (P : Output → Prop) : ∀ {β : Type}, Op β → Prop
  | _, .send o            => P o
  | _, .persist c topic _ => ∀ msg, P (.deadLetter c topic msg)
  | _, _                  => True

def Sends (P : Output → Prop) (p : Py α) : Prop :=
  p.All (Op.Sends P)

theorem trySend_sends (h : P o) : Sends P (trySend o) :=
  .catching (.bind (all_op h) fun _ => trivial) fun _ => trivial

theorem isMarkedFor_sends : Sends P (isMarkedFor m topic) := by
  refine .bind (all_op trivial) fun b => ?_
  cases b
  case false => trivial
  case true  => exact .bind (all_op trivial) fun _ => trivial

theorem isReportedAvailable_sends : Sends P (isReportedAvailable m topic) := by
  refine .bind (all_op trivial) fun _ => .bind trivial fun b => ?_
  cases b
  case false => trivial
  case true  => exact .bind trivial fun _ => trivial

theorem isHandlerAvailable_sends : Sends P (isHandlerAvailable m topic) := by
  refine .bind isMarkedFor_sends fun b => ?_
  cases b
  case false => exact isReportedAvailable_sends
  case true  => trivial

theorem nextHandler_sends {hs : List ModuleId} : Sends P (nextHandler t m hs) :=
  .bind (all_op trivial) fun _ => .bind (all_op trivial) fun _ => trivial

theorem handleJobRequest_sends {i tf mf : Bytes} (hd : ∀ c h i tf mf, P (.dispatch c h i tf mf))
    (hn : ∀ v t, P (.noHandler v i tf t)) : Sends P (handleJobRequest i tf mf msg) := by
  refine .bind (all_op trivial) fun _ => .bind trivial fun _ => .bind trivial fun _ =>
    .bind trivial fun _ => .bind (all_op trivial) fun _ =>
    .bind (.select fun _ => isHandlerAvailable_sends) fun available => ?_
  cases available
  case nil =>
    dsimp only
    split
    · exact .bind (trySend_sends <| hn ..) fun _ => trivial
    · exact .bind trivial fun _ => .bind (all_op trivial) fun _ => all_op trivial
  case cons h hs =>
    refine .bind nextHandler_sends fun _ => .bind trivial fun _ => .bind (all_op trivial) fun _ =>
      .bind (all_op trivial) fun _ => .bind (trySend_sends <| hd ..) fun b => ?_
    cases b
    case false => exact .bind (all_op trivial) fun _ => .bind (all_op trivial) fun _ => trivial
    case true  => trivial

theorem retryJob_sends (hd : ∀ c h i tf mf, P (.dispatch c h i tf mf)) : Sends P (retryJob ref) := by
  refine .bind (all_op trivial) fun _ => .bind (all_op trivial) fun _ =>
    .bind (.select fun _ => isHandlerAvailable_sends) fun available => ?_
  cases available
  case nil => trivial
  case cons h hs =>
    refine .bind nextHandler_sends fun _ => .bind (trySend_sends <| hd ..) fun b => ?_
    cases b
    case false => trivial
    case true  =>
      exact .bind (all_op trivial) fun _ => .bind (all_op trivial) fun _ =>
        .bind (all_op trivial) fun _ => .bind (all_op trivial) fun _ => trivial

theorem recoverJob_sends (hd : ∀ c h i tf mf, P (.dispatch c h i tf mf)) :
    Sends P (recoverJob ref) := by
  refine .bind (all_op trivial) fun _ => .bind (retryJob_sends hd) fun b => ?_
  cases b
  case false => exact all_op trivial
  case true  => trivial

theorem recoverHandler_sends (hd : ∀ c h i tf mf, P (.dispatch c h i tf mf)) :
    Sends P (recoverHandler c) := by
  refine .bind (all_op trivial) fun b => ?_
  cases b
  case false => trivial
  case true  =>
    refine .bind (all_op trivial) fun topics => ?_
    split
    · trivial
    · exact .bind (all_op trivial) fun _ => .each fun _ => recoverJob_sends hd

theorem handleHeartbeat_sends (hd : ∀ c h i tf mf, P (.dispatch c h i tf mf)) :
    Sends P (handleHeartbeat msg) := by
  refine .bind trivial fun _ => .bind trivial fun b => ?_
  cases b
  case false => exact recoverHandler_sends hd
  case true  =>
    exact .bind trivial fun _ => .bind (all_op trivial) fun _ => recoverHandler_sends hd

namespace TycheEngine

theorem exec_grows {β : Type} {o : Op β} (h : o.Sends P) :
    Grows P s.out (exec deserialize works o s).2.out := by
  cases o
  case send o    =>
    rw [exec]
    split
    · exact .concat h
    · exact .of_eq rfl
  case persist   =>
    rw [exec]
    split
    · exact .of_eq rfl
    · split
      · exact .concat (h _)
      · exact .of_eq rfl
  all_goals
    simp only [exec]
    first | exact .of_eq rfl | (split <;> exact .of_eq rfl)

theorem trying_grows (h : P o) : Grows P s.out (s.trying works o).out := by
  rw [trying]
  split
  · exact .concat h
  · exact .of_eq rfl

theorem run_grows (h : Sends P p) : Grows P s.out (p.run (exec deserialize works) s).2.out :=
  h.run (I := fun s' : TycheEngine => Grows P s.out s'.out)
    (fun _ _ ho hs => hs.trans <| exec_grows ho) <| .of_eq rfl

theorem handleJobResponse_grows {tf mf : Bytes}
    (hr : ∀ c r, s.pendingJobs.get? c = some r → P (.response c r tf mf)) :
    Grows P s.out ((handleJobResponse tf mf msg).run (exec deserialize works) s).2.out := by
  rw [run_handleJobResponse]
  split
  case h_1 => exact .of_eq rfl
  case h_2 c _ =>
    split
    case h_1 => exact .of_eq rfl
    case h_2 r hp => exact trying_grows (s := s.untrack c) (hr c r hp)

theorem arrive_pendingJobs {i : Incoming} : (s.arrive i).pendingJobs = s.pendingJobs := by
  rw [arrive]
  split <;> rfl

theorem arrive_grows {i : Incoming} (ha : ∀ c i, P (.answer c i)) :
    Grows P s.out (s.arrive i).out := by
  rw [arrive]
  split
  case h_2 => exact .concat (ha ..)
  all_goals exact .of_eq rfl

theorem addInterfaces_out {is : List Interface} : (addInterfaces m is s).2.out = s.out := by
  induction is generalizing s
  case nil => rfl
  case cons i is hi =>
    rw [addInterfaces]
    cases i.eventType.hash
    case error => rfl
    case ok    => exact hi.trans <| by split <;> rfl

end TycheEngine

end Python
