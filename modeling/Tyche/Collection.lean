import Tyche.Cpp.Theorems.Collection
import Tyche.Python.Theorems.Collection
import Tyche.Python.Theorems.EventWorkers

-- Both engines lose no message in the runs in which queues are erased only when they are empty, and
-- messages are put only into queues that are not erased. In C++ such a queue must not be full.
theorem collection_loses_nothing (now : ℚ) (capacity : BitVec 32) (capacity' : Option ℤ)
    (as : List (Threads.Action Cpp.EventThread Cpp.EventTask (List Bytes → Bool)))
    (bs : List (Threads.Action Python.EventThread Python.EventTask (List Bytes → Bool))) :
    ((Threads.machine Cpp.events).Along (Threads.Meets Cpp.Events.careful)
        (.start <| .start now capacity) as →
      (Threads.machine Cpp.events).Always (fun t => t.shared.Kept)
        (.start <| .start now capacity) as) ∧
    ((Threads.machine Python.events).Along (Threads.Meets Python.Events.careful)
        (.start <| .start now capacity') bs →
      (Threads.machine Python.events).Always Python.Events.Kept
        (.start <| .start now capacity') bs) :=
  ⟨Cpp.events.always_kept_of_careful, Python.events.always_kept_of_careful⟩

namespace Cpp.Sample

def event (n : ℕ) : Threads.Action EventThread EventTask (List Bytes → Bool) :=
  .start .proxy <| .event ⟨n, false⟩ [utf8 "t", utf8 "e"]

def steps (i : EventThread) (n : ℕ) :
    List (Threads.Action EventThread EventTask (List Bytes → Bool)) :=
  .replicate n <| .next i fun _ => true

-- A message has gone through a queue, and nothing has happened for a while.
def idle : List (Threads.Action EventThread EventTask (List Bytes → Bool)) :=
  [event 0] ++ steps .proxy 7 ++ [.start .egress .drain] ++ steps .egress 2 ++
  [.start .egress .drain] ++ steps .egress 5 ++ [.start .clock <| .tick 61]

def collect : List (Threads.Action EventThread EventTask (List Bytes → Bool)) :=
  [.start .monitor .collect] ++ steps .monitor 5

end Cpp.Sample

namespace Python.Sample

def idle : List (Threads.Action EventThread EventTask (List Bytes → Bool)) :=
  [event] ++ steps .proxy 12 ++ [.start .egress .drain] ++ steps .egress 2 ++
  [.start .egress .drain] ++ steps .egress 5 ++ [.start .clock <| .tick 61]

def collect : List (Threads.Action EventThread EventTask (List Bytes → Bool)) :=
  [.start .monitor .collect] ++ steps .monitor 7

end Python.Sample

-- A message arrives after the queue of its topic was erased.
theorem collection_loses_nothing_later :
    (Threads.machine Cpp.events).Always (fun t => t.shared.Kept) (.start <| .start 1 1000)
      (Cpp.Sample.idle ++ Cpp.Sample.collect ++
        [Cpp.Sample.event 1] ++ Cpp.Sample.steps .proxy 7) ∧
    (Threads.machine Python.events).Always Python.Events.Kept (.start <| .start 1 none)
      (Python.Sample.idle ++ Python.Sample.collect ++
        [Python.Sample.event] ++ Python.Sample.steps .proxy 12) := by
  have ⟨hc, hp⟩ := collection_loses_nothing 1 1000 none
    (Cpp.Sample.idle ++ Cpp.Sample.collect ++ [Cpp.Sample.event 1] ++ Cpp.Sample.steps .proxy 7)
    (Python.Sample.idle ++ Python.Sample.collect ++ [Python.Sample.event] ++
      Python.Sample.steps .proxy 12)
  exact ⟨hc <| by decide +kernel, hp <| by decide +kernel⟩

-- A message arrives, and the queue of its topic is erased after the proxy has looked it up.
theorem not_collection_loses_nothing :
    (¬∀ as t, (Threads.machine Cpp.events).exec (.start <| .start 1 1000) as = some t →
      (Threads.machine Cpp.events).Always (fun t => t.shared.Kept) (.start <| .start 1 1000) as) ∧
    ¬∀ bs t, (Threads.machine Python.events).exec (.start <| .start 1 none) bs = some t →
      (Threads.machine Python.events).Always Python.Events.Kept (.start <| .start 1 none) bs := by
  constructor
  case left =>
    intro h
    have hr : ∃ t ∈ (Threads.machine Cpp.events).exec (.start <| .start 1 1000)
        (Cpp.Sample.idle ++ [Cpp.Sample.event 1] ++ Cpp.Sample.steps .proxy 2 ++
          Cpp.Sample.collect ++ Cpp.Sample.steps .proxy 4),
        (t.shared.queues 0).items.length ≠ 0 ∧ 0 ∉ t.shared.topicQueues.values := by
      decide +kernel
    obtain ⟨t, ht, hi, hn⟩ := hr
    exact hn <| ((h _ t ht).exec ht).reached 0 fun he => hi <| congrArg List.length he
  case right =>
    intro h
    have hr : ∃ t ∈ (Threads.machine Python.events).exec (.start <| .start 1 none)
        (Python.Sample.idle ++ [Python.Sample.event] ++ Python.Sample.steps .proxy 3 ++
          Python.Sample.collect ++ Python.Sample.steps .proxy 6),
        (t.shared.queues 0).items.length ≠ 0 ∧ 0 ∉ t.shared.topicQueues.values := by
      decide +kernel
    obtain ⟨t, ht, hi, hn⟩ := hr
    exact hn <| ((h _ t ht).exec ht).reached 0 fun he => hi <| congrArg List.length he
