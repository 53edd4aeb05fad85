import Tyche.Python.Theorems.Exclusion
import Tyche.RoundRobin

namespace Python

variable {deserialize : Bytes → Option Message} {works : Output → Bool} {t : Key}
variable {i : Incoming} {l : List Incoming} {o : Output} {call : Call} {hs : List ModuleId}

-- The handler to which a job about a topic goes.
def Output.handler? (deserialize : Bytes → Option Message) (t : Key) : Output → Option ModuleId
  | dispatch _ m _ _ mf => if ∃ msg ∈ deserialize mf, msg.event.hash = .ok t then some m else none
  | _                   => none

namespace TycheEngine

variable {s s' s₁ s₂ : TycheEngine} {lost : Hashed → Prop} {topic : Hashed} {h : ModuleId}
variable {ref : Ref}

-- The handlers that jobs about a topic go to between two states of a run.
def dispatches (deserialize : Bytes → Option Message) (t : Key) (s s' : TycheEngine) :
    List ModuleId :=
  (s'.out.drop s.out.length).filterMap (·.handler? deserialize t)

-- The available handlers of a topic are these, whatever value the topic is given by.
def Steady (s : TycheEngine) (t : Key) (hs : List ModuleId) : Prop :=
  ∀ topic : Hashed, topic.key = t → ∀ l, s.available topic = .ok l → l = hs

theorem handler?_eq_none (h : ¬o.IsDispatch) : o.handler? deserialize t = none := by
  cases o
  case dispatch => exact absurd trivial h
  all_goals rfl

theorem filterMap_eq_nil {os : List Output} (h : ∀ o ∈ os, ¬o.IsDispatch) :
    os.filterMap (·.handler? deserialize t) = [] :=
  List.filterMap_eq_nil_iff.mpr fun o ho => handler?_eq_none (h o ho)

theorem Ledger.handler? (hl : Ledger deserialize l s)
    (hr : s.jobTracking.get? ref.corrId = some ref.number) :
    ((s.infos ref).dispatch ref.corrId h).handler? deserialize t =
      if (s.infos ref).topic.key = t then some h else none := by
  obtain ⟨i, hi, -, ho⟩ := hl.tracked _ _ hr
  have hd : deserialize (s.infos ref).messageFrame = some i.msg :=
    (congrArg deserialize ho.messageFrame).trans <| hl.decoded i (List.mem_of_getElem? hi)
  have hk : i.msg.event.hash = .ok (s.infos ref).topic.key := Value.hash_of_hashed ho.topic
  rw [TrackingInfo.dispatch, Output.handler?]
  refine if_congr ?_ rfl rfl
  simp only [hd, Option.mem_def, Option.some.injEq, exists_eq_left', hk, Except.ok.injEq]

def Served (s : TycheEngine) (t : Key) : Prop :=
  ∃ topic : Hashed, topic.key = t ∧ ∃ l, s.available topic = .ok l

-- The turns for a topic between two states, where the available handlers stay the same.
def Rounds (deserialize : Bytes → Option Message) (t : Key) (s s' : TycheEngine) : Prop :=
  ∃ os, s'.out = s.out ++ os ∧ (os.filterMap (·.handler? deserialize t) ≠ [] → s'.Served t) ∧
    ∀ hs, (os.filterMap (·.handler? deserialize t) ≠ [] → s'.Steady t hs) →
      RoundRobin.Turns hs (s.index t) (os.filterMap (·.handler? deserialize t)) (s'.index t)

-- No handler of the topic has a mark or a report.
theorem Steady.of_handlers
    (h : ∀ m ∈ s.handlers t, t ∉ s.marks m ∧ .ofModule m ∉ s.moduleAvailability) :
    s.Steady t (s.handlers t) := by
  rintro topic rfl l hl
  have ha : ∀ m ∈ s.handlers topic.key, s.isHandlerAvailable m topic = .ok true := by
    intro m hm
    rw [isHandlerAvailable, if_neg (h m hm).left, report, Dict.getD,
      Dict.get?_eq_none_iff.mpr (h m hm).right]
    rfl
  exact Except.ok.inj <| hl.symm.trans <| Proc.chosen_eq_self ha

theorem Steady.of_tables (h : s.Steady t hs) (ht : s'.tables = s.tables) : s'.Steady t hs :=
  fun topic hk l hl => h topic hk l <| available_of_tables ht ▸ hl

theorem Served.of_tables (h : s.Served t) (ht : s'.tables = s.tables) : s'.Served t := by
  obtain ⟨topic, hk, l, hl⟩ := h
  exact ⟨topic, hk, l, available_of_tables ht ▸ hl⟩

theorem Rounds.trans (h : Rounds deserialize t s s₁) (h' : Rounds deserialize t s₁ s₂)
    (ht : s₂.tables = s₁.tables) : Rounds deserialize t s s₂ := by
  obtain ⟨os, ho, hv, h⟩ := h
  obtain ⟨os', ho', hv', h'⟩ := h'
  refine ⟨os ++ os', by rw [ho', ho, List.append_assoc], ?_⟩
  rw [List.filterMap_append]
  refine ⟨fun hn => ?_, fun hs hd => ?_⟩
  case refine_1 =>
    by_cases hn' : os.filterMap (·.handler? deserialize t) = []
    case pos => exact hv' fun h => hn <| by rw [hn', h, List.nil_append]
    case neg => exact (hv hn').of_tables ht
  refine (h hs fun hn => ?_).trans (h' hs fun hn => ?_)
  · exact (hd <| List.append_ne_nil_of_left_ne_nil hn _).of_tables ht.symm
  · exact hd <| List.append_ne_nil_of_right_ne_nil _ hn

theorem turns_rounds (hl : Ledger deserialize l s') (ht : s'.tables = s.tables)
    (hn : ∀ topic, ¬lost topic) (h : Turns lost s s') : Rounds deserialize t s s' := by
  cases h
  case idle hi ho =>
    obtain ⟨os, ho, hd⟩ := ho
    refine ⟨os, ho, ?_⟩
    rw [filterMap_eq_nil hd, hi]
    exact ⟨absurd rfl, fun _ _ => .nil⟩
  case lose topic _ h _ _ => exact absurd h <| hn topic
  case send ref h hr hk ho =>
    refine ⟨_, ho, ?_⟩
    have hf : [(s'.infos ref).dispatch ref.corrId h].filterMap (·.handler? deserialize t) =
        if (s'.infos ref).topic.key = t then [h] else [] := by
      rw [List.filterMap_cons, hl.handler? hk]
      split
      case h_1 he => split at he <;> simp_all
      case h_2 he => split at he <;> simp_all
    rw [hf]
    split
    case isFalse hne =>
      rw [hr.others t (Ne.symm hne)]
      exact ⟨absurd rfl, fun _ _ => .nil⟩
    case isTrue he =>
      obtain ⟨hs', ha, hh, hi⟩ := hr.selects
      have ha := available_of_tables ht ▸ ha
      refine ⟨fun _ => ⟨_, he, hs', ha⟩, fun hs hd => ?_⟩
      cases hd (List.cons_ne_nil _ _) _ he hs' ha
      rw [← he, hi]
      exact .single hh

theorem moves_rounds (hl : Ledger deserialize l s) (hr : s.Retains s₁)
    (hn : ∀ topic, ¬lost topic) (h : Relation.ReflTransGen (Move lost) s₁ s') : Rounds deserialize t s₁ s' := by
  suffices s.Retains s' ∧ s'.tables = s₁.tables ∧ Rounds deserialize t s₁ s' from this.right.right
  induction h
  case refl =>
    exact ⟨hr, rfl, [], (List.append_nil _).symm, absurd rfl, fun _ _ => .nil⟩
  case tail s₂ s₃ _ hm hi =>
    obtain ⟨hr, ht, hi⟩ := hi
    have hr := hr.trans hm.retains
    have hm' := turns_rounds (t := t) (hl.retains hr) hm.tables hn hm.turns
    exact ⟨hr, hm.tables.trans ht, hi.trans hm' hm.tables⟩

theorem Rounds.of_prepares (h : Rounds deserialize t s₁ s') (hp : s.Prepares s₁) :
    Rounds deserialize t s s' := by
  obtain ⟨os, ho, h⟩ := h
  exact ⟨os, hp.out ▸ ho, hp.index t ▸ h⟩

theorem perform_rounds (hl : Ledger deserialize l s)
    (hd : ∀ i, call = .receive i → deserialize i.messageFrame = some i.msg)
    (hn : ∀ topic, ¬loses works call topic) :
    Rounds deserialize t s (s.perform deserialize works call).2 := by
  have hp : s.Prepares (s.prepared call) := prepares
  refine Rounds.of_prepares ?_ hp
  rcases @perform_moves deserialize works s call with hm | ⟨i, rfl, he⟩
  case inl => exact moves_rounds hl hp.retains hn hm
  case inr =>
    have hl' := (hl.retains hp.retains).enters he (hd i rfl)
    exact turns_rounds hl' he.tables hn he.turns

-- Only what can be sent is sent.
theorem exec_works {β : Type} {op : Op β} :
    Grows (fun o => o.IsDispatch → works o) s.out (exec deserialize works op s).2.out := by
  cases op
  case send o =>
    rw [exec]
    split
    case isTrue h => exact .concat fun _ => h
    case isFalse  => exact .of_eq rfl
  case persist =>
    rw [exec]
    split
    case h_1 => exact .of_eq rfl
    case h_2 =>
      split
      case isTrue h => exact .concat fun _ => h
      case isFalse  => exact .of_eq rfl
  all_goals
    simp only [exec]
    first | exact .of_eq rfl | (split <;> exact .of_eq rfl)

theorem run_works {α : Type} {p : Py α} : Grows (fun o => o.IsDispatch → works o) s.out
    (p.run (exec deserialize works) s).2.out :=
  Proc.all_true.run (I := fun s' : TycheEngine => Grows (fun o => o.IsDispatch → works o) s.out s'.out)
    (fun _ _ _ h => h.trans exec_works) <| .of_eq rfl

theorem perform_works : Grows (fun o => o.IsDispatch → works o) s.out
    (s.perform deserialize works call).2.out := by
  cases call
  case tick       => exact .of_eq rfl
  case receive    => exact (arrive_grows fun _ _ h => absurd h id).trans run_works
  case timeout    => exact run_works
  case heartbeat  => exact run_works
  case register   => exact .of_eq addInterfaces_out
  case unregister => exact .of_eq unregisterModule_prepares.out

theorem addInterfaces_distinct {m : ModuleId} {is : List Interface} (h : s.jobHandlers.Distinct) :
    (addInterfaces m is s).2.jobHandlers.Distinct := by
  induction is generalizing s
  case nil => exact h
  case cons i is hi =>
    rw [addInterfaces]
    split
    case h_1 => exact h
    case h_2 =>
      refine hi ?_
      split
      case isTrue  => exact h.add
      case isFalse => exact h

theorem prepared_distinct (h : s.jobHandlers.Distinct) :
    (s.prepared call).jobHandlers.Distinct := by
  cases call <;> rw [prepared]
  case tick       => exact h
  case receive    =>
    split
    case isFalse => exact h
    case isTrue  =>
      rw [arrive]
      split <;> exact h
  case timeout c r => cases s.marked c r <;> exact h
  case heartbeat msg =>
    cases msg.sender.hash
    case error => exact h
    case ok k  =>
      cases reported msg.payload
      case error => exact h
      case ok v  => cases v <;> exact h
  case register   => exact addInterfaces_distinct h
  case unregister =>
    rw [unregisterModule]
    split
    case isTrue  => exact h.filter
    case isFalse => exact h

-- A module handles a topic once, however often it registers for it.
theorem perform_distinct (h : s.jobHandlers.Distinct) :
    (s.perform deserialize works call).2.jobHandlers.Distinct := by
  have hp : (s.prepared call).jobHandlers.Distinct := prepared_distinct h
  have of_tables {s s' : TycheEngine} (ht : s'.tables = s.tables) (h : s.jobHandlers.Distinct) :
      s'.jobHandlers.Distinct := by
    have hj : s'.jobHandlers = s.jobHandlers := congrArg Prod.fst ht
    exact hj ▸ h
  rcases @perform_moves deserialize works s call with hm | ⟨i, -, he⟩
  case inr => exact of_tables he.tables hp
  case inl =>
    generalize (s.perform deserialize works call).2 = s' at hm ⊢
    induction hm
    case refl         => exact hp
    case tail hm hi   => exact of_tables hm.tables hi

theorem Steady.nodup (h : s.Steady t hs) (hd : s.jobHandlers.Distinct) (hv : s.Served t) :
    hs.Nodup := by
  obtain ⟨topic, ht, l, hl⟩ := hv
  exact h topic ht l hl ▸ (hd topic.key).sublist (Proc.chosen_sublist hl)

-- A request whose job cannot be tracked is not sent. If it takes a turn, it raises.
theorem handleJobRequest_unhashable {e : Error} (hc : i.msg.correlationId.hash = .error e) :
    let x := (handleJobRequest i.identity i.topicFrame i.messageFrame i.msg).run
      (exec deserialize works) s
    Grows (fun o => ¬o.IsDispatch) s.out x.2.out ∧ (raised x.1 ∨ ∀ t, x.2.index t = s.index t) := by
  dsimp only
  rw [run_handleJobRequest]
  cases hq : request i.msg
  case error => exact ⟨.of_eq rfl, .inl rfl⟩
  case ok q  =>
    dsimp only
    match hs : s.selectHandler q.topic with
    | .error _  => exact ⟨.of_eq rfl, .inl rfl⟩
    | .ok none  =>
      dsimp only
      split
      case isTrue =>
        refine ⟨trying_grows id, .inr fun t => ?_⟩
        obtain ⟨os, he⟩ := @trying_eq works s <|
          .noHandler i.msg.correlationId i.identity i.topicFrame i.msg.event
        exact congrArg (·.index t) he
      case isFalse =>
        rw [hc]
        exact ⟨.of_eq rfl, .inl rfl⟩
    | .ok (some (h, s₁)) =>
      obtain ⟨-, n, rfl⟩ := selectHandler_eq_some hs
      rw [hc]
      exact ⟨.of_eq rfl, .inl rfl⟩

end TycheEngine

def Action.works? : Action → Option (Output → Bool)
  | .receive _ works | .timeout works | .heartbeat _ works => some works
  | _ => none

namespace Workers

open TycheEngine (dispatches)

variable {s s' s₁ : Workers} {a : Action} {as : List Action} {r : ℕ}

-- Jobs can be sent as long as the router runs, which closes the socket when it ends.
def Sends (s : Workers) (a : Action) : Prop :=
  ∀ works ∈ a.works?, ∀ o : Output, o.IsDispatch → works o = !s.routerEnded

-- Where the step sends jobs about the topic, the handlers that are available for it are these.
def Steady (deserialize : Bytes → Option Message) (t : Key) (hs : List ModuleId) (s : Workers)
    (a : Action) : Prop :=
  ∀ s' ∈ s.step deserialize a, dispatches deserialize t s.engine s'.engine ≠ [] →
    s'.engine.Steady t hs

theorem step_routerEnded (e : s.step deserialize a = some s') (h : s.routerEnded = true) :
    s'.routerEnded = true := by
  cases a <;> simp only [step, Option.ite_none_right_eq_some, Option.ite_none_left_eq_some,
    Option.some.injEq] at e
  case tick       => exact e.right ▸ h
  case receive    => exact absurd h e.left
  case scan       =>
    rw [← e.right, scan]
    split <;> exact h
  case timeout    =>
    obtain ⟨job, -, e⟩ := Option.map_eq_some_iff.mp e.right
    exact e ▸ h
  case heartbeat  =>
    rw [← e]
    cases heartbeat? deserialize _ <;> exact h
  case register   => exact e ▸ h
  case unregister => exact e ▸ h

theorem works_of_call? (hc : s.call? deserialize a = some (call, works)) : works ∈ a.works? ∨
    works = (fun _ => true) ∧ (s.engine.perform deserialize works call).2.out = s.engine.out := by
  cases a
  case tick       => cases hc; exact .inr ⟨rfl, rfl⟩
  case scan       => cases hc
  case register   => cases hc; exact .inr ⟨rfl, TycheEngine.addInterfaces_out⟩
  case unregister => cases hc; exact .inr ⟨rfl, TycheEngine.unregisterModule_prepares.out⟩
  case receive    => obtain ⟨_, _, he⟩ := Option.map_eq_some_iff.mp hc; cases he; exact .inl rfl
  case timeout    => obtain ⟨_, _, he⟩ := Option.map_eq_some_iff.mp hc; cases he; exact .inl rfl
  case heartbeat  => obtain ⟨_, _, he⟩ := Option.map_eq_some_iff.mp hc; cases he; exact .inl rfl

theorem step_routerEnded_receive (hc : s.call? deserialize a = some (.receive i, works))
    (e : s.step deserialize a = some s') :
    s'.routerEnded = raised (s.engine.perform deserialize works (.receive i)).1 := by
  obtain ⟨frames, rfl, hi⟩ := call?_eq_receive hc
  rw [step, Option.ite_none_left_eq_some, Option.some.injEq, receive, hi] at e
  exact e.right ▸ rfl

-- A closed socket sends nothing.
theorem works_rounds (hc : s.call? deserialize a = some (call, works)) (hw : s.Sends a)
    (hr : s.routerEnded = true) : Grows (fun o => ¬o.IsDispatch) s.engine.out
      (s.engine.perform deserialize works call).2.out := by
  rcases works_of_call? hc with hm | ⟨-, ho⟩
  case inr => exact .of_eq ho
  case inl =>
    refine TycheEngine.perform_works.mono fun o h hd => ?_
    have hf := hw works hm o hd
    rw [h hd, hr] at hf
    cases hf

theorem request_rounds {e : Error} (hi : i.msg.msgType = .request)
    (hh : i.msg.correlationId.hash = .error e)
    (hc : s.call? deserialize a = some (.receive i, works)) (h : s.step deserialize a = some s') :
    Grows (fun o => ¬o.IsDispatch) s.engine.out
        (s.engine.perform deserialize works (.receive i)).2.out ∧
      (s'.routerEnded = true ∨ ∀ t, (s.engine.perform deserialize works (.receive i)).2.index t =
        s.engine.index t) := by
  have hp : s.engine.Prepares (s.engine.arrive i) := TycheEngine.arrive_prepares hi
  have hu := @TycheEngine.handleJobRequest_unhashable deserialize works i (s.engine.arrive i) e hh
  rw [step_routerEnded_receive hc h, TycheEngine.perform, Python.run, Python.route, hi, ← hp.out]
  exact hu.imp_right <| Or.imp_right fun hx t => (hx t).trans <| hp.index t

-- Neither a failing send nor a raise after the selection loses a turn.
theorem loses_nothing (hc : s.call? deserialize a = some (call, works)) (hw : s.Sends a)
    (hr : s.routerEnded = false)
    (hu : ¬∃ i x, call = .receive i ∧ i.msg.msgType = .request ∧ i.msg.correlationId.hash = .error x)
    (topic : Hashed) : ¬TycheEngine.loses works call topic := by
  have hf : ¬TycheEngine.Fails works topic := by
    rintro ⟨o, hd, ho⟩
    rcases works_of_call? hc with hm | ⟨rfl, -⟩
    case inr => cases ho
    case inl =>
      have hn := hw works hm o hd
      rw [ho, hr] at hn
      cases hn
  intro hlost
  cases call
  case receive i =>
    rcases hlost with hlost | ⟨hi, -, x, hh⟩
    case inl => exact hf hlost
    case inr => exact hu ⟨i, x, rfl, hi, hh⟩
  all_goals exact hf hlost

-- The turns for the topic that a step takes. The last one may be lost as the router ends.
def Rounds (deserialize : Bytes → Option Message) (t : Key) (hs : List ModuleId)
    (s s' : Workers) : Prop :=
  ∃ os, s'.engine.out = s.engine.out ++ os ∧
    (os.filterMap (·.handler? deserialize t) ≠ [] → hs.Nodup) ∧
    (s.routerEnded = false ∧ RoundRobin.Turns hs (s.engine.index t)
        (os.filterMap (·.handler? deserialize t)) (s'.engine.index t) ∨
      os.filterMap (·.handler? deserialize t) = [] ∧ s'.routerEnded = true)

theorem Rounds.silent (h : Grows (fun o => ¬o.IsDispatch) s.engine.out s'.engine.out)
    (hr : s.routerEnded = false ∧ s'.engine.index t = s.engine.index t ∨ s'.routerEnded = true) :
    Rounds deserialize t hs s s' := by
  obtain ⟨os, ho, hn⟩ := h
  refine ⟨os, ho, ?_⟩
  rw [TycheEngine.filterMap_eq_nil hn]
  rcases hr with ⟨hr, hi⟩ | hr
  case inl => exact ⟨absurd rfl, .inl ⟨hr, hi ▸ .nil⟩⟩
  case inr => exact ⟨absurd rfl, .inr ⟨rfl, hr⟩⟩

theorem step_distinct (e : s.step deserialize a = some s') (h : s.engine.jobHandlers.Distinct) :
    s'.engine.jobHandlers.Distinct := by
  rw [step_engine e]
  cases s.call? deserialize a
  case none   => exact h
  case some x => exact TycheEngine.perform_distinct h

theorem step_rounds (hl : TycheEngine.Ledger deserialize l s.engine) (hd : s.engine.jobHandlers.Distinct)
    (e : s.step deserialize a = some s') (hw : s.Sends a) (hs' : s.Steady deserialize t hs a) :
    Rounds deserialize t hs s s' := by
  have he := step_engine e
  have hd' := step_distinct e hd
  cases hc : s.call? deserialize a
  case none =>
    rw [hc, Option.elim_none] at he
    refine .silent (.of_eq <| congrArg _ he) ?_
    cases hr : s.routerEnded
    case false => exact .inl ⟨rfl, congrArg (·.index t) he⟩
    case true  => exact .inr <| step_routerEnded e hr
  case some x =>
    obtain ⟨call, works⟩ := x
    rw [hc, Option.elim_some] at he
    by_cases hr : s.routerEnded = true
    case pos =>
      have hg := works_rounds hc hw hr
      exact .silent (he ▸ hg) <| .inr <| step_routerEnded e hr
    have hr : s.routerEnded = false := eq_false_of_ne_true hr
    by_cases hu : ∃ i x, call = .receive i ∧ i.msg.msgType = .request ∧
      i.msg.correlationId.hash = .error x
    case pos =>
      obtain ⟨i, x, rfl, hi, hh⟩ := hu
      obtain ⟨hg, hx⟩ := request_rounds hi hh hc e
      rw [← he] at hg hx
      exact .silent hg <| hx.symm.imp_left fun hx => ⟨hr, hx t⟩
    case neg =>
      have hi : ∀ i, call = .receive i → deserialize i.messageFrame = some i.msg := by
        rintro i rfl
        obtain ⟨frames, -, hi⟩ := call?_eq_receive hc
        exact incoming_decoded hi
      have hro : TycheEngine.Rounds deserialize t s.engine
          (s.engine.perform deserialize works call).2 :=
        TycheEngine.perform_rounds hl hi <| loses_nothing hc hw hr hu
      rw [← he] at hro
      obtain ⟨os, ho, hv, hro⟩ := hro
      have hst (hn : os.filterMap (·.handler? deserialize t) ≠ []) : s'.engine.Steady t hs :=
        hs' s' e <| by rwa [dispatches, ho, List.drop_left]
      exact ⟨os, ho, fun hn => (hst hn).nodup hd' <| hv hn, .inl ⟨hr, hro hs hst⟩⟩

theorem exec_rounds (hl : TycheEngine.Ledger deserialize l s.engine) (hd : s.engine.jobHandlers.Distinct)
    (e : (workers deserialize).exec s as = some s')
    (c : (workers deserialize).Along (fun s a => s.Sends a ∧ s.Steady deserialize t hs a) s as) :
    ∃ os, s'.engine.out = s.engine.out ++ os ∧
      (os.filterMap (·.handler? deserialize t) ≠ [] → hs.Nodup) ∧
      (s.routerEnded = true → os.filterMap (·.handler? deserialize t) = []) ∧
      ∃ r, RoundRobin.Turns hs (s.engine.index t) (os.filterMap (·.handler? deserialize t)) r := by
  induction as generalizing s l
  case nil =>
    cases e
    exact ⟨[], (List.append_nil _).symm, absurd rfl, fun _ => rfl, _, .nil⟩
  case cons a as hi =>
    obtain ⟨s₁, h, e⟩ := Machine.exec_cons_eq_some_iff.mp e
    obtain ⟨os, ho, hn, hr⟩ := step_rounds hl hd h c.left.left c.left.right
    obtain ⟨os', ho', hn', ht, r, hr'⟩ :=
      hi (step_ledger hl h).left (step_distinct h hd) e (c.right s₁ h)
    refine ⟨os ++ os', by rw [ho', ho, List.append_assoc], ?_⟩
    rw [List.filterMap_append]
    constructor
    case left =>
      intro hne
      by_cases h : os.filterMap (·.handler? deserialize t) = []
      case neg => exact hn h
      case pos => exact hn' fun h' => hne <| by rw [h, h', List.nil_append]
    case right =>
      rcases hr with ⟨hf, hr⟩ | ⟨hr, hq⟩
      case inl => exact ⟨fun hq => absurd (hf.symm.trans hq) Bool.false_ne_true, r, hr.trans hr'⟩
      case inr =>
        rw [hr, ht hq]
        exact ⟨fun _ => rfl, _, .nil⟩

theorem exec_distinct (e : (workers deserialize).exec s as = some s')
    (h : s.engine.jobHandlers.Distinct) : s'.engine.jobHandlers.Distinct :=
  (Machine.invariant (I := fun s : Workers => s.engine.jobHandlers.Distinct)
    (fun _ _ _ h e => step_distinct e h) h).exec e

-- The workers where the next turn for the topic is that of any handler.
def withIndex (s : Workers) (t : Key) (r : ℕ) : Workers :=
  { s with engine := s.engine.setRoundRobin t r }

theorem exec_fair {now : ℚ} {as₀ : List Action}
    (e₀ : (workers deserialize).exec (.start now) as₀ = some s)
    (e : (workers deserialize).exec (s.withIndex t r) as = some s')
    (c : (workers deserialize).Along (fun s a => s.Sends a ∧ s.Steady deserialize t hs a)
      (s.withIndex t r) as) :
    RoundRobin.Fair hs (dispatches deserialize t s.engine s'.engine) := by
  obtain ⟨hl, hd⟩ : TycheEngine.Ledger deserialize _ s.engine ∧ s.engine.jobHandlers.Distinct :=
    ⟨exec_ledger start_ledger e₀, exec_distinct (s := .start now) e₀ Dict.distinct_empty⟩
  have hl : TycheEngine.Ledger deserialize _ (s.withIndex t r).engine :=
    hl.retains ⟨rfl, fun _ _ h => h, fun _ => rfl⟩
  obtain ⟨os, ho, hn, -, r', hr⟩ := exec_rounds hl hd e c
  have hf : dispatches deserialize t s.engine s'.engine =
      os.filterMap (·.handler? deserialize t) := by
    rw [dispatches, ho]
    exact congrArg _ List.drop_left
  exact hf ▸ hr.fair_of hn

end Workers

end Python
