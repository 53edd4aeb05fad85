import Tyche.Cpp.Theorems.Output

namespace Cpp

-- A response that is forwarded for the handler with the given identity goes to the requester of
-- each job with its correlation id that this handler owes an answer for.
def Output.AnswersFor (s : TycheEngine) (identity : Bytes) : Output → Prop
  | response c r _ _ => ∀ h r', (h, r') ∈ (s.job c).owed → h.val = identity → r' = r
  | _                => True

instance {s : TycheEngine} {identity : Bytes} : ∀ o : Output, Decidable (o.AnswersFor s identity)
  | .response c r _ _   =>
    decidable_of_iff (∀ a ∈ (s.job c).owed, a.1.val = identity → a.2 = r) Prod.forall
  | .answer ..          => isTrue trivial
  | .dispatch ..        => isTrue trivial
  | .noHandler ..       => isTrue trivial
  | .handlerTimedOut .. => isTrue trivial
  | .deadLetter ..      => isTrue trivial
  | .timedOut ..        => isTrue trivial

namespace TycheEngine

variable {deserialize : Bytes → Option Message} {s s' : TycheEngine} {a : Action}
variable {c : Bytes} {info : JobTrackingInfo} {o : Output} {h : ModuleId}

-- Who sent what an action receives.
def sender (deserialize : Bytes → Option Message) : Action → Option Bytes
  | .receive frames => (incoming deserialize frames).map Incoming.identity
  | _               => none

def Isolated (deserialize : Bytes → Option Message) (s : TycheEngine) (a : Action) : Prop :=
  ∀ s' ∈ s.step deserialize a, ∀ identity ∈ sender deserialize a,
    ∀ o ∈ s'.out.drop s.out.length, o.AnswersFor s identity

instance : Decidable (Isolated deserialize s a) :=
  inferInstanceAs <| Decidable (∀ _ ∈ _, ∀ _ ∈ _, ∀ _ ∈ _, _)

theorem step_isolated (hs : ∀ c, (s.job c).Exclusive) : Isolated deserialize s a := by
  intro s' e identity hi o ho
  cases a
  case receive fs =>
    cases e
    have he : Grows (Output.AnswersFor s identity) s.out (s.receive deserialize fs).out :=
      receive_grows (fun _ _ _ => trivial) (fun _ _ _ _ => trivial) (fun _ _ => trivial)
        fun c r _ _ hr h r' hm _ => (hs c h r' hm r hr).symm
    exact he.drop ho
  all_goals cases hi

end TycheEngine

namespace broker

open TycheEngine

variable {deserialize : Bytes → Option Message} {as : List Action} {now : ℚ}

-- A correlation id for which no answer is owed may be used by anyone.
theorem faithful_of_unowed {s : TycheEngine} {a : Action}
    (h : ∀ c ∈ requestId deserialize a, (s.job c).owed = []) :
    (broker deserialize).Faithful s a := by
  intro c r hr h' r' hm
  have hm : (h', r') ∈ (s.job c).owed := hm
  rw [h c <| event_eq_request <| .inr ⟨r, hr⟩] at hm
  exact absurd hm List.not_mem_nil

theorem along_isolated_of_faithful
    (c : (broker deserialize).Along (broker deserialize).Faithful (.start now) as) :
    (broker deserialize).Along (Isolated deserialize) (.start now) as := by
  have ho : (broker deserialize).Answerable (.start now) := fun _ => Job.idle_answerable
  have hs : (broker deserialize).Exclusive (.start now) := fun _ => Job.idle_exclusive
  exact (Broker.always_exclusive ho hs c).along c fun _ _ h _ => step_isolated h

end broker

end Cpp
