import Tyche.Cpp.Theorems.Isolation
import Tyche.Python.Theorems.Isolation

-- Both engines keep the requesters apart in the runs in which a job is only accepted from the
-- requester that all handlers who may still answer it would answer.
theorem responses_isolated (now : ℚ) (deserialize : Bytes → Option Cpp.Message)
    (deserialize' : Bytes → Option Python.Message) (as : List Cpp.Action)
    (bs : List Python.Action) :
    ((Cpp.broker deserialize).Along (Cpp.broker deserialize).Faithful (.start now) as →
      (Cpp.broker deserialize).Along (Cpp.TycheEngine.Isolated deserialize) (.start now) as) ∧
    ((Python.broker deserialize').Along (Python.broker deserialize').Faithful (.start now) bs →
      (Python.broker deserialize').Along (Python.Workers.Isolated deserialize') (.start now) bs) :=
  ⟨Cpp.broker.along_isolated_of_faithful, Python.broker.along_isolated_of_faithful⟩

def Cpp.Sample.inTurn : List Cpp.Action :=
  [register (Sample.worker 1), request (utf8 "a"), response (Sample.worker 1).val,
    request (utf8 "b"), response (Sample.worker 1).val]

def Python.Sample.inTurn : List Python.Action :=
  [register (Sample.worker 1), request (utf8 "a"), response (Sample.worker 1).val,
    request (utf8 "b"), response (Sample.worker 1).val]

theorem responses_isolated_in_turn :
    (Cpp.broker Cpp.Sample.unpack).Along (Cpp.TycheEngine.Isolated Cpp.Sample.unpack) (.start 0)
      Cpp.Sample.inTurn ∧
    (Python.broker Python.Sample.unpack).Along (Python.Workers.Isolated Python.Sample.unpack)
      (.start 0) Python.Sample.inTurn := by
  have ⟨hc, hp⟩ := responses_isolated 0 Cpp.Sample.unpack Python.Sample.unpack Cpp.Sample.inTurn
    Python.Sample.inTurn
  have hu : (Cpp.broker Cpp.Sample.unpack).Along
      (fun s a => ∀ c ∈ Cpp.TycheEngine.requestId Cpp.Sample.unpack a, (s.job c).owed = [])
      (.start 0) Cpp.Sample.inTurn := by
    decide +kernel
  have hv : (Python.broker Python.Sample.unpack).Along
      (fun s a => ∀ c ∈ Python.Workers.requestId Python.Sample.unpack a, (s.job c).owed = [])
      (.start 0) Python.Sample.inTurn := by
    decide +kernel
  exact ⟨hc <| hu.mono fun _ _ => Cpp.broker.faithful_of_unowed,
    hp <| hv.mono fun _ _ => Python.broker.faithful_of_unowed⟩

-- The first handler has yet to answer the first requester when the second requester uses the same
-- correlation id, and its answer goes to the second one.
theorem not_responses_isolated :
    (¬∀ as, (Cpp.broker Cpp.Sample.unpack).Along (Cpp.TycheEngine.Isolated Cpp.Sample.unpack)
      (.start 0) as) ∧
    ¬∀ bs, (Python.broker Python.Sample.unpack).Along
      (Python.Workers.Isolated Python.Sample.unpack) (.start 0) bs := by
  constructor
  case left =>
    intro h
    have hn := h [Cpp.Sample.register (Sample.worker 1), Cpp.Sample.register (Sample.worker 2),
      Cpp.Sample.request (utf8 "a"), Cpp.Sample.request (utf8 "b"),
      Cpp.Sample.response (Sample.worker 1).val]
    revert hn
    decide +kernel
  case right =>
    intro h
    have hn := h [Python.Sample.register (Sample.worker 1),
      Python.Sample.register (Sample.worker 2), Python.Sample.request (utf8 "a"),
      Python.Sample.request (utf8 "b"), Python.Sample.response (Sample.worker 1).val]
    revert hn
    decide +kernel
