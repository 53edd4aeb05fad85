import Tyche.Python.JobSockets
import Tyche.Python.Theorems.Envelope
import Tyche.Python.Theorems.JobReceiver
import Tyche.Python.Theorems.JobThreads

namespace Python

open Msgpack Multipart Threads

-- On both job sockets, no message is mixed with another one if each thread sends all frames of a
-- message while the others send none.
theorem jobMessages_intact {η : Type} (deserialize : Bytes → Option Message)
    (encode : List Token → Bytes) (tell : Output → Bytes) (code : JobReceiver.Code η) :
    (∀ (s : JobRouter) as, (machine (jobRouter deserialize encode tell)).Along (Meets alone)
      (.start (s, start)) as → (machine (jobRouter deserialize encode tell)).Always
        (fun t => t.shared.2.Intact) (.start (s, start)) as) ∧
    ∀ (s : JobSocket η) as, (machine (jobSocket code encode)).Along (Meets alone)
      (.start (s, start)) as → (machine (jobSocket code encode)).Always
        (fun t => t.shared.2.Intact) (.start (s, start)) as :=
  ⟨fun _ _ c => always_intact c, fun _ _ c => always_intact c⟩

namespace Sample

def routerSteps (i : JobThread) (n : ℕ) : List (Threads.Action RouterThread RouterTask Bool) :=
  .replicate n <| .next (.job i) true

def registered (n : ℕ) : Threads.Action RouterThread RouterTask Bool :=
  .start (.job .registration) <| .job <| .register {
    moduleId   := Sample.worker n
    interfaces := [{ pattern := .handle, eventType := .str <| utf8 "t" }] }

-- A handler gets a job.
def dispatched : List (Threads.Action RouterThread RouterTask Bool) :=
  [registered 1, .start (.job .router) <| .job <| .receive <| Sample.frames (utf8 "a") "req" "c"] ++
    routerSteps .router 13

def responded : Threads.Action RouterThread RouterTask Bool :=
  .start (.job .router) <| .job <| .receive <| Sample.frames (Sample.worker 1).val "resp" "c"

-- The job goes to another handler as well, to which the timeout worker has sent the first frame
-- when the router forwards the response.
def forwarded : List (Threads.Action RouterThread RouterTask Bool) :=
  dispatched ++ [registered 2, .start (.job .clock) <| .job <| .tick 61,
    .start (.job .timeout) <| .job .checkTimeouts] ++ routerSteps .timeout 18 ++ responded ::
    routerSteps .router 7

def socketSteps (i : SocketThread) (n : ℕ) :
    List (Threads.Action SocketThread SocketTask Requests.Surroundings) :=
  .replicate n <| .next i ⟨true, .elapses⟩

def requested : Threads.Action SocketThread SocketTask Requests.Surroundings :=
  .start (.caller 0) <| .requestEvent (utf8 "d") (some <| utf8 "u") (.dict [])

def assigned : Threads.Action SocketThread SocketTask Requests.Surroundings :=
  .start .receiver <| .receive jobFrames

def jobSocketModule : JobSocket JobReceiver.Outcome :=
  .start (jobModule <| .returned <| .bool true).module

end Sample

theorem jobMessages_intact_sample :
    (machine (jobRouter Sample.unpack Envelope.Sample.bytesOf fun _ => [])).Always
      (fun t => t.shared.2.Intact) (.start (.start 0, start))
      (Sample.dispatched ++ Sample.responded :: Sample.routerSteps .router 8) ∧
    (machine (jobSocket Sample.jobCode Envelope.Sample.bytesOf)).Always
      (fun t => t.shared.2.Intact) (.start (Sample.jobSocketModule, start))
      (Sample.requested :: Sample.socketSteps (.caller 0) 8 ++
        Sample.assigned :: Sample.socketSteps .receiver 5) :=
  have h := jobMessages_intact Sample.unpack Envelope.Sample.bytesOf (fun _ => []) Sample.jobCode
  ⟨h.left _ _ <| by decide +kernel, h.right _ _ <| by decide +kernel⟩

-- The engine sends the response to the second handler of the job. The module sends its response
-- as a message with one more frame.
theorem not_jobMessages_intact :
    (¬∀ (s : JobRouter) as,
      (machine (jobRouter Sample.unpack Envelope.Sample.bytesOf fun _ => [])).Always
        (fun t => t.shared.2.Intact) (.start (s, start)) as) ∧
    ¬∀ (s : JobSocket JobReceiver.Outcome) as,
      (machine (jobSocket Sample.jobCode Envelope.Sample.bytesOf)).Always
        (fun t => t.shared.2.Intact) (.start (s, start)) as := by
  constructor
  case left  =>
    have hr : ∃ t ∈ (machine (jobRouter Sample.unpack Envelope.Sample.bytesOf fun _ => [])).exec
        (.start (.start 0, start)) Sample.forwarded, ¬t.shared.2.Intact := by
      decide +kernel
    obtain ⟨t, ht, hn⟩ := hr
    exact fun h => hn <| (h _ _).exec ht
  case right =>
    have hr : ∃ t ∈ (machine (jobSocket Sample.jobCode Envelope.Sample.bytesOf)).exec
        (.start (Sample.jobSocketModule, start))
        (Sample.requested :: Sample.socketSteps (.caller 0) 6 ++
          Sample.assigned :: Sample.socketSteps .receiver 5), ¬t.shared.2.Intact := by
      decide +kernel
    obtain ⟨t, ht, hn⟩ := hr
    exact fun h => hn <| (h _ _).exec ht

end Python
