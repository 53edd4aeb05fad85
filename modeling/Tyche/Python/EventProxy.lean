import Tyche.Python.Events
import Tyche.Threads

namespace Python

open Proc

abbrev PyEvents :=
  Proc EventOp Error

-- The strategies other than dropping the oldest message drop the new one.
def applyBackpressure (q : ℕ) (topic : Key) (frames : List Bytes) : PyEvents Bool := do
  let strategy ← op (.getStrategy topic)
  let maxDepth ← op (.getMaxDepth topic)
  let now ← op .time
  let entry : QueueEntry := { enqueueTime := now, frames := frames }
  let length ← op (.len q)
  let depth ← lift maxDepth.number
  if depth.Exceeds length then
    let _ ← op (.put q entry)
    return true
  else
    match strategy with
    | .dropOldest =>
      let _ ← op (.popleft q)
      let _ ← op (.put q entry)
      op (.countDropped q)
      return true
    | .dropNewest | .blockProducer =>
      op (.countDropped q)
      return false

-- `with self._topic_queues_lock: p`
def withLock {α : Type} (p : PyEvents α) : PyEvents α := do
  op .lock
  p.after fun r => do
    op .unlock
    lift r

def decode (frame : Bytes) : Except Error Key :=
  if IsUtf8 frame then .ok (.str frame) else .error .valueError

def getOrCreateQueue (topic : Key) : PyEvents ℕ := do
  match ← op (.getQueue topic) with
  | some q => return q
  | none   => op (.newQueue topic)

def enqueueFromXsub (frames : List Bytes) : PyEvents Unit :=
  match frames with
  | topicFrame :: _ :: _ => do
    let topic ← lift (decode topicFrame)
    let queueKey ← op (.getQueueKey topic)
    match ← op (.getQueue queueKey) with
    | some q =>
      let _ ← applyBackpressure q queueKey frames
      op (.touch topic)
    | none   =>
      let _ ← withLock do
        let q ← getOrCreateQueue queueKey
        applyBackpressure q queueKey frames
  | _ => return ()

-- What the proxy does with a message from the publishers.
def proxyEvent (frames : List Bytes) : PyEvents Unit := do
  Proc.catching (op (.forward frames)) fun _ => return ()
  enqueueFromXsub frames

-- The egress worker has taken an entry out of a queue. One that is too old is persisted.
def drainEntry (topic : Key) (entry : QueueEntry) : PyEvents Unit := do
  let now ← op .time
  let ttl ← op (.getTtl topic)
  if ← lift (ttl.exceededBy (now - entry.enqueueTime)) then
    Proc.catching (op (.persist topic (entry.frames.getD 1 (entry.frames.headD [])))) fun _ =>
      return ()
  op (.touch topic)

-- One round of the innermost loop of the egress worker, which goes on to the next queue when one is
-- empty and takes a new snapshot after the last one.
def drain : PyEvents Unit := do
  match ← op .nextQueue with
  | none            => op .takeSnapshot
  | some (topic, q) =>
    match ← op (.get q) with
    | none       => op .skipQueue
    | some entry => drainEntry topic entry

-- What the monitor does about idle topics.
def collectTopics : PyEvents Unit := do
  let now ← op .time
  withLock do
    let topics ← op .topics
    let dead ← select (fun topic => op (.isIdle now topic)) topics
    each (fun topic => do
      op (.delete topic)
      op (.popLastAccess topic)) dead

inductive EventThread
  | proxy
  | egress
  | monitor
  | registration
  | clock
deriving DecidableEq

inductive EventTask
  | event (frames : List Bytes)
  | drain
  | collect
  | register (info : ModuleInfo)
  | unregister (m : ModuleId)
  | tick (duration : ℚ)

namespace Events

def elapse (s : Events) (duration : ℚ) : Events :=
  { s with now := s.now + duration }

-- A registration is a single step, which has to wait for the lock of the queues.
def enter : EventThread → EventTask → Events → Option (Events × PyEvents Unit)
  | .proxy, .event frames, s            => some (s, proxyEvent frames)
  | .egress, .drain, s                  => some (s, Python.drain)
  | .monitor, .collect, s               => some (s, collectTopics)
  | .registration, .register info, s    =>
    if s.locked then none else some ((s.registerModule info).2, return ())
  | .registration, .unregister m, s     => some ((s.unregisterModule m).2, return ())
  | .clock, .tick duration, s           =>
    if 0 ≤ duration then some (s.elapse duration, return ()) else none
  | _, _, _                             => none

end Events

def events : Threads.System EventOp Error Events EventThread EventTask (List Bytes → Bool) where
  enter           := Events.enter
  exec _ works o s := if s.Blocked o then none else some (Events.exec works o s)

end Python
