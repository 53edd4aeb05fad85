import Tyche.Log
import Tyche.Cpp.Theorems.Jobs

namespace Cpp

namespace TycheEngine

variable {deserialize : Bytes → Option Message} {s s' s₁ s₂ : TycheEngine} {a : Action}
variable {c : Bytes} {info : JobTrackingInfo} {o : Output} {r : Reason} {P : Output → Prop}

theorem retryJob_grows (hd : ∀ c h i, P (.dispatch c h i)) (e : s.retryJob c info = some s') :
    Grows P s.out s'.out := by
  have ⟨_, _, n, e⟩ := retryJob_eq_some e
  rw [e]
  exact .concat (hd ..)

theorem redispatch_grows {info' : JobTrackingInfo} (hd : ∀ c h i, P (.dispatch c h i)) :
    Grows P s.out ((s.retryJob c info).getD <| s.track c info').out := by
  cases e : s.retryJob c info
  case none => exact .of_eq rfl
  case some => exact retryJob_grows hd e

theorem persistDeadLetter_grows (hl : ∀ m, P (.deadLetter c r info.topic m)) :
    Grows P s.out (s.persistDeadLetter deserialize c r info).out := by
  rw [persistDeadLetter]
  split
  · exact .concat (hl _)
  · exact .of_eq rfl

theorem failJob_grows (hl : ∀ m, P (.deadLetter c r info.topic m))
    (ht : ∀ i tf m, P (.timedOut c r i tf m)) :
    Grows P s.out (s.failJob deserialize c r info).out := by
  let s' := if r = .waitTimeout then s.persistDeadLetter deserialize c r info else s
  have hp : Grows P s.out s'.out := by
    rw [show s' = ite _ _ _ from rfl]
    split
    · exact persistDeadLetter_grows hl
    · exact .of_eq rfl
  exact hp.trans <| .concat (ht ..)

theorem handleRequest_grows {i tf mf : Bytes} {msg : Message} (hd : ∀ c h i, P (.dispatch c h i))
    (hn : ∀ c i tf m, P (.noHandler c i tf m)) : Grows P s.out (s.handleRequest i tf mf msg).out := by
  simp only [handleRequest]
  generalize msg.correlationId.getD [] = c
  split
  case h_1 =>
    split
    · exact .concat (hn ..)
    · exact .of_eq rfl
  case h_2 h _ e =>
    obtain ⟨_, n, e⟩ := selectHandler_eq_some e
    rw [e]
    exact .concat (hd ..)

theorem handleResponse_grows {i tf mf : Bytes} {msg : Message} (ha : ∀ c, P (.answer c i))
    (hr : ∀ c r, s.pendingJobs.get? c = some r → P (.response c r tf mf)) :
    Grows P s.out (s.handleResponse i tf mf msg).out := by
  simp only [handleResponse]
  generalize msg.correlationId.getD [] = c
  have ha : Grows P s.out (s.emit <| .answer c i).out := .concat (ha c)
  split
  case h_1 => exact ha
  case h_2 r e => exact ha.trans <| .concat (hr c r e)

theorem receive_grows {fs : List Bytes} (hd : ∀ c h i, P (.dispatch c h i))
    (hn : ∀ c i tf m, P (.noHandler c i tf m)) (ha : ∀ c i, P (.answer c i))
    (hr : ∀ c r tf mf, s.pendingJobs.get? c = some r → P (.response c r tf mf)) :
    Grows P s.out (s.receive deserialize fs).out := by
  rw [receive]
  cases incoming deserialize fs
  case none => exact .of_eq rfl
  case some i =>
    rw [Option.map_some, Option.getD_some, route]
    split
    · exact handleRequest_grows hd hn
    · exact handleResponse_grows (ha · _) fun c r => hr c r _ _
    · exact .of_eq rfl

theorem recoverJobs_grows {js : List (Bytes × JobTrackingInfo)}
    (hd : ∀ c h i, P (.dispatch c h i)) : Grows P s.out (js.foldl recoverJob s).out := by
  induction js generalizing s
  case nil => exact .of_eq rfl
  case cons j js hi => exact (redispatch_grows (s := s.untrack j.1) hd).trans hi

theorem unregisterModule_out {m : ModuleId} : (s.unregisterModule m).out = s.out := by
  rw [unregisterModule]
  split <;> rfl

end TycheEngine

end Cpp
