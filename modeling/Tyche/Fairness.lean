import Tyche.Cpp.Theorems.Fairness
import Tyche.Python.Theorems.Fairness

-- A topic's jobs go to its handlers in turns, from whatever value the index of the topic has in a
-- reachable state. `hs` are the available handlers of the topic whenever a job about it is sent.
theorem round_robin_fair :
    (∀ deserialize now as₀ s, (Python.workers deserialize).exec (.start now) as₀ = some s →
      ∀ t r hs as s', (Python.workers deserialize).exec (s.withIndex t r) as = some s' →
        (Python.workers deserialize).Along (fun s a => s.Sends a ∧ s.Steady deserialize t hs a)
          (s.withIndex t r) as →
        RoundRobin.Fair hs (Python.TycheEngine.dispatches deserialize t s.engine s'.engine)) ∧
    ∀ deserialize now as₀ s, (Cpp.broker deserialize).exec (.start now) as₀ = some s →
      ∀ t r hs as s', (Cpp.broker deserialize).exec (s.setRoundRobin t r) as = some s' →
        (Cpp.broker deserialize).Along (Cpp.TycheEngine.Steady deserialize t hs)
          (s.setRoundRobin t r) as →
        RoundRobin.Fair hs (Cpp.TycheEngine.dispatches t s s') :=
  ⟨fun _ _ _ _ e₀ _ _ _ _ _ e c => Python.Workers.exec_fair e₀ e c,
    fun _ _ _ _ e₀ _ _ _ _ _ e c => Cpp.TycheEngine.exec_fair e₀ e c⟩

def Python.Sample.handlers : List Python.Action :=
  [register (Sample.worker 1), register (Sample.worker 2)]

def Cpp.Sample.handlers : List Cpp.Action :=
  [register (Sample.worker 1), register (Sample.worker 2)]

-- Three requests for two handlers, of which the second one comes first.
theorem round_robin_fair_requests :
    (∃ s ∈ (Python.workers Python.Sample.unpack).exec (.start 0) Python.Sample.handlers,
      ∃ s' ∈ (Python.workers Python.Sample.unpack).exec (s.withIndex (.str <| utf8 "t") 5)
          (.replicate 3 <| Python.Sample.request <| utf8 "a"),
        RoundRobin.Fair [Sample.worker 1, Sample.worker 2] <|
          Python.TycheEngine.dispatches Python.Sample.unpack (.str <| utf8 "t") s.engine s'.engine) ∧
    ∃ s ∈ (Cpp.broker Cpp.Sample.unpack).exec (.start 0) Cpp.Sample.handlers,
      ∃ s' ∈ (Cpp.broker Cpp.Sample.unpack).exec (s.setRoundRobin (utf8 "t") 5)
          (.replicate 3 <| Cpp.Sample.request <| utf8 "a"),
        RoundRobin.Fair [Sample.worker 1, Sample.worker 2] <|
          Cpp.TycheEngine.dispatches (utf8 "t") s s' := by
  constructor
  case left =>
    have hr : ∃ s ∈ (Python.workers Python.Sample.unpack).exec (.start 0) Python.Sample.handlers,
        ∃ s' ∈ (Python.workers Python.Sample.unpack).exec (s.withIndex (.str <| utf8 "t") 5)
            (.replicate 3 <| Python.Sample.request <| utf8 "a"),
          (Python.workers Python.Sample.unpack).Along (fun s a => s.routerEnded = false ∧
              ∀ s' ∈ s.step Python.Sample.unpack a,
                s'.engine.handlers (.str <| utf8 "t") = [Sample.worker 1, Sample.worker 2] ∧
                ∀ m ∈ s'.engine.handlers (.str <| utf8 "t"),
                  .str (utf8 "t") ∉ s'.engine.marks m ∧
                  .ofModule m ∉ s'.engine.moduleAvailability)
            (s.withIndex (.str <| utf8 "t") 5) (.replicate 3 <| Python.Sample.request <| utf8 "a") := by
      decide +kernel
    obtain ⟨s, e₀, s', e, c⟩ := hr
    refine ⟨s, e₀, s', e, round_robin_fair.left _ _ _ s e₀ _ _ _ _ s' e ?_⟩
    have hw : (Python.workers Python.Sample.unpack).Along
        (fun _ a => ∀ works ∈ a.works?, ∀ o, works o = true) (s.withIndex (.str <| utf8 "t") 5)
        (.replicate 3 <| Python.Sample.request <| utf8 "a") := by
      refine Machine.along_of_forall fun a ha => ?_
      cases List.eq_of_mem_replicate ha
      rintro _ ⟨⟩ _
      rfl
    refine (c.and hw).mono fun s a h => ⟨fun works hm o _ => ?_, fun s' e _ => ?_⟩
    · rw [h.left.left, h.right works hm o]
      rfl
    · obtain ⟨hh, hm⟩ := h.left.right s' e
      exact hh ▸ .of_handlers hm
  case right =>
    have hr : ∃ s ∈ (Cpp.broker Cpp.Sample.unpack).exec (.start 0) Cpp.Sample.handlers,
        ∃ s' ∈ (Cpp.broker Cpp.Sample.unpack).exec (s.setRoundRobin (utf8 "t") 5)
            (.replicate 3 <| Cpp.Sample.request <| utf8 "a"),
          (Cpp.broker Cpp.Sample.unpack).Along (Cpp.TycheEngine.Steady Cpp.Sample.unpack (utf8 "t")
            [Sample.worker 1, Sample.worker 2]) (s.setRoundRobin (utf8 "t") 5)
            (.replicate 3 <| Cpp.Sample.request <| utf8 "a") := by
      decide +kernel
    obtain ⟨s, e₀, s', e, c⟩ := hr
    exact ⟨s, e₀, s', e, round_robin_fair.right _ _ _ s e₀ _ _ _ _ s' e c⟩
