import Tyche.Cpp.Events
import Tyche.Threads

namespace Cpp

open Proc

abbrev CppEvents :=
  Proc EventOp Empty

def enqueueFromXsub (e : Event) (frames : List Bytes) : CppEvents Unit :=
  match frames with
  | topic :: _ :: _ => do
    let q ← match ← op (.getRaw topic) with
      | some q => pure q
      | none   => op (.getOrCreate topic)
    let now ← op .time
    op (.put q { enqueueTime := now, frames := frames.take 4, event := e })
    let now ← op .time
    op (.touch topic now)
  | _ => return ()

-- What the proxy does with a message from the publishers.
def proxyEvent (e : Event) (frames : List Bytes) : CppEvents Unit := do
  op (.send e frames)
  enqueueFromXsub e frames

-- The two ways to inject an event take the same data.
def inject (e : Event) (topic data : Bytes) : CppEvents Unit := do
  let q ← op (.getOrCreate topic)
  let now ← op .time
  op (.put q { enqueueTime := now, frames := [topic, data], event := e })
  let now ← op .time
  op (.touch topic now)

def injectEvent (e : Event) (topic messageData : Bytes) : CppEvents Unit :=
  inject e topic messageData

def injectEventRaw (e : Event) (topic data : Bytes) : CppEvents Unit :=
  inject e topic data

-- What the bridge does with a message from shared memory.
def forwardToZmq (e : Event) (topic payload : Bytes) : CppEvents Unit :=
  if topic = [] then return () else injectEventRaw e topic payload

def QueueItem.message (item : QueueItem) : Bytes :=
  item.frames.getD 1 (item.frames.headD [])

def QueueItem.Expired (item : QueueItem) (now : ℚ) : Prop :=
  Events.broadcastTtl < now - item.enqueueTime

instance {item : QueueItem} {now : ℚ} : Decidable (item.Expired now) :=
  inferInstanceAs <| Decidable (_ < _)

-- The egress worker has taken an item out of a queue.
def drainItem (topic : Bytes) (item : QueueItem) : CppEvents Unit := do
  let now ← op .time
  if item.Expired now then
    op (.persist item.event item.message)
  let now ← op .time
  op (.touch topic now)

-- One round of the innermost loop of the egress worker, which goes on to the next queue when one is
-- empty and takes a new snapshot after the last one.
def drain : CppEvents Unit := do
  match ← op .nextQueue with
  | none            => op .takeSnapshot
  | some (topic, q) =>
    match ← op (.get q) with
    | none      => op .skipQueue
    | some item => drainItem topic item

-- A topic that nobody has accessed has the time 0.
def collectTopic (now : ℚ) (active : List Bytes) (topic : Bytes) : CppEvents Unit :=
  if topic ∈ active then return ()
  else do
    let last ← op (.lastAccess topic)
    let last := if last = 0 then now else last
    if Events.topicQueueTtl < now - last then op (.erase topic) else return ()

-- What the monitor does about idle topics.
def collectTopics : CppEvents Unit := do
  let now ← op .time
  let active ← op .activeTopics
  let topics ← op .topics
  each (collectTopic now active) topics

-- There may be any number of threads that inject events.
inductive EventThread
  | proxy
  | injector (n : ℕ)
  | egress
  | monitor
  | registration
  | clock
deriving DecidableEq

inductive EventTask
  | event (e : Event) (frames : List Bytes)
  | inject (e : Event) (topic messageData : Bytes)
  | injectRaw (e : Event) (topic data : Bytes)
  | bridge (e : Event) (topic payload : Bytes)
  | drain
  | collect
  | register (info : ModuleInfo)
  | unregister (m : ModuleId)
  | tick (duration : ℚ)

def Events.enter : EventThread → EventTask → Events → Option (Events × CppEvents Unit)
  | .proxy, .event e frames, s              => some (s, proxyEvent e frames)
  | .injector _, .inject e topic d, s       => some (s, injectEvent e topic d)
  | .injector _, .injectRaw e topic d, s    => some (s, injectEventRaw e topic d)
  | .injector _, .bridge e topic payload, s => some (s, forwardToZmq e topic payload)
  | .egress, .drain, s                      => some (s, Cpp.drain)
  | .monitor, .collect, s                   => some (s, collectTopics)
  | .registration, .register info, s        => some (s.registerModule info, return ())
  | .registration, .unregister m, s         => some (s.unregisterModule m, return ())
  | .clock, .tick duration, s               =>
    if 0 ≤ duration then some (s.elapse duration, return ()) else none
  | _, _, _                                 => none

def events : Threads.System EventOp Empty Events EventThread EventTask (List Bytes → Bool) where
  enter            := Events.enter
  exec _ works o s := some (Events.exec works o s)

end Cpp
