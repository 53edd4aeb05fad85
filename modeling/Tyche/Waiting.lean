import Tyche.Cpp.Theorems.Waiting
import Tyche.Python.Theorems.Waiting

-- A job that is given up because of its wait timeout has waited for that long in the runs in which
-- no job is put back to waiting later than it arrived. The engine in C++ processes timeout events
-- as soon as they are queued, and the one in Python handles jobs only as long as they are due.
theorem waitTimeouts_measure_waiting (now : ℚ) (deserialize : Bytes → Option Cpp.Message)
    (deserialize' : Bytes → Option Python.Message) (as : List Cpp.Action)
    (bs : List Python.Action) :
    ((Cpp.broker deserialize).Along Cpp.TycheEngine.Prompt (.start now) as →
      (Cpp.broker deserialize).Along (Cpp.broker.PutsBackAtOnce deserialize) (.start now) as →
        (Cpp.broker deserialize).MeasuresWaiting (Cpp.TycheEngine.GivesUp deserialize)
          Cpp.TycheEngine.Recent (.start now) as) ∧
    ((Python.broker deserialize').Along Python.Workers.Due (.start now) bs →
      (Python.broker deserialize').Along (Python.Workers.PutsBackAtOnce deserialize')
        (.start now) bs →
          (Python.broker deserialize').MeasuresWaiting (Python.Workers.GivesUp deserialize')
            Python.Workers.Recent (.start now) bs) :=
  ⟨Cpp.broker.measuresWaiting, Python.broker.measuresWaiting⟩

def Cpp.Sample.waiting : List Cpp.Action :=
  [register (Sample.worker 1), request (utf8 "a"), .unregister (Sample.worker 1), .tick 31,
    .scan 31 [utf8 "c"], .timeoutEvent]

def Python.Sample.waiting : List Python.Action :=
  [register (Sample.worker 1), request (utf8 "a"), .unregister (Sample.worker 1), .tick 31, .scan,
    .timeout fun _ => true]

theorem waitTimeouts_measure_waiting_orphan :
    (Cpp.broker Cpp.Sample.unpack).MeasuresWaiting (Cpp.TycheEngine.GivesUp Cpp.Sample.unpack)
      Cpp.TycheEngine.Recent (.start 0) Cpp.Sample.waiting ∧
    (Python.broker Python.Sample.unpack).MeasuresWaiting
      (Python.Workers.GivesUp Python.Sample.unpack) Python.Workers.Recent (.start 0)
      Python.Sample.waiting := by
  have ⟨hc, hp⟩ := waitTimeouts_measure_waiting 0 Cpp.Sample.unpack Python.Sample.unpack
    Cpp.Sample.waiting Python.Sample.waiting
  exact ⟨hc (by decide +kernel) (by decide +kernel), hp (by decide +kernel) (by decide +kernel)⟩

-- A job that runs for longer than its wait timeout until it is put back.
def Cpp.Sample.running : List Cpp.Action :=
  [register (Sample.worker 1), request (utf8 "a"), .tick 61, .scan 61 [utf8 "c"]]

def Python.Sample.running : List Python.Action :=
  [register (Sample.worker 1), request (utf8 "a"), .tick 61, .scan]

theorem not_waitTimeouts_measure_waiting :
    (¬∀ as, (Cpp.broker Cpp.Sample.unpack).Along Cpp.TycheEngine.Prompt (.start 0) as →
      (Cpp.broker Cpp.Sample.unpack).MeasuresWaiting (Cpp.TycheEngine.GivesUp Cpp.Sample.unpack)
        Cpp.TycheEngine.Recent (.start 0) as) ∧
    ¬∀ bs, (Python.broker Python.Sample.unpack).MeasuresWaiting
      (Python.Workers.GivesUp Python.Sample.unpack) Python.Workers.Recent (.start 0) bs := by
  constructor
  case left =>
    intro h
    have hp : (Cpp.broker Cpp.Sample.unpack).Along Cpp.TycheEngine.Prompt (.start 0)
        (Cpp.Sample.running ++ [.timeoutEvent, .scan 61 [utf8 "c"], .timeoutEvent]) := by
      decide +kernel
    have hr : ∃ s₁ ∈ (Cpp.broker Cpp.Sample.unpack).exec (.start 0) Cpp.Sample.running,
        ∃ s₂ ∈ (Cpp.broker Cpp.Sample.unpack).exec s₁ [.timeoutEvent, .scan 61 [utf8 "c"]],
          Cpp.TycheEngine.GivesUp Cpp.Sample.unpack s₂ .timeoutEvent (utf8 "c") ∧
            s₂.Recent (utf8 "c") s₁.now ∧ ¬(s₁.job (utf8 "c")).Waiting := by
      decide +kernel
    have ⟨s₁, h₁, s₂, h₂, hg, ht, hw⟩ := hr
    exact hw <| h _ hp _ _ _ [] rfl s₁ s₂ h₁ h₂ _ hg ht
  case right =>
    intro h
    have hr : ∃ s₁ ∈ (Python.broker Python.Sample.unpack).exec (.start 0) Python.Sample.running,
        ∃ s₂ ∈ (Python.broker Python.Sample.unpack).exec s₁ [.timeout fun _ => true, .scan],
          Python.Workers.GivesUp Python.Sample.unpack s₂ (.timeout fun _ => true)
            (.str <| utf8 "c") ∧
          s₂.Recent (.str <| utf8 "c") s₁.engine.now ∧ ¬(s₁.job <| .str <| utf8 "c").Waiting := by
      decide +kernel
    have ⟨s₁, h₁, s₂, h₂, hg, ht, hw⟩ := hr
    exact hw <| h _ _ _ _ [] rfl s₁ s₂ h₁ h₂ _ hg ht
