import Tyche.Python.Theorems.Dispatches

namespace Python

variable {deserialize : Bytes → Option Message} {works : Output → Bool} {t c : Key}
variable {m h : ModuleId} {i : Incoming} {l : List Incoming} {o : Output} {call : Call}

-- A job that is about a topic goes to a handler.
def Output.Dispatches (deserialize : Bytes → Option Message) (t : Key) (h : ModuleId) :
    Output → Prop
  | dispatch _ m _ _ mf => m = h ∧ ∃ msg ∈ deserialize mf, msg.event.hash = .ok t
  | _                   => False

-- The call ends the time for which a handler is marked.
def Call.Ends (h : ModuleId) : Call → Prop
  | .heartbeat msg => msg.sender.hash = .ok (.ofModule h) ∧
    ∃ v, TycheEngine.reported msg.payload = .ok v
  | .register info => info.moduleId = h
  | .unregister m  => m = h
  | _              => False

namespace TycheEngine

variable {s s' s₁ s₂ : TycheEngine} {lost : Hashed → Prop} {topic : Hashed}

-- The requests for which jobs were made, by the numbers of the jobs.
structure Ledger (deserialize : Bytes → Option Message) (l : List Incoming) (s : TycheEngine) :
    Prop where
  length  : l.length = s.created
  decoded : ∀ i ∈ l, deserialize i.messageFrame = some i.msg
  tracked : ∀ c n, s.jobTracking.get? c = some n →
    ∃ i, l[n]? = some i ∧ i.msg.correlationId.hash = .ok c ∧ (s.infos ⟨c, n⟩).origin.Of i

theorem Ledger.retains (hl : Ledger deserialize l s) (hk : s.Retains s') : Ledger deserialize l s' where
  length  := hl.length.trans hk.created.symm
  decoded := hl.decoded
  tracked := by
    intro c n hn
    obtain ⟨i, hi, hc, ho⟩ := hl.tracked c n <| hk.tracking c n hn
    exact ⟨i, hi, hc, hk.origin ⟨c, n⟩ ▸ ho⟩

theorem Ledger.enters (hl : Ledger deserialize l s) (he : Enters lost i s s')
    (hd : deserialize i.messageFrame = some i.msg) : Ledger deserialize (l ++ [i]) s' where
  length  := by rw [List.length_append, List.length_singleton, hl.length, he.created]
  decoded := by
    intro j hj
    rcases List.mem_append.mp hj with hj | hj
    case inl => exact hl.decoded j hj
    case inr => exact List.mem_singleton.mp hj ▸ hd
  tracked := by
    intro c n hn
    rcases he.tracking c n hn with ⟨hn, ho⟩ | ⟨rfl, hc, ho⟩
    case inl =>
      obtain ⟨i, hi, hc, h⟩ := hl.tracked c n hn
      exact ⟨i, List.getElem?_append_left (List.getElem?_eq_some_iff.mp hi).1 ▸ hi, hc, ho ▸ h⟩
    case inr =>
      refine ⟨i, ?_, hc, ho⟩
      rw [← hl.length, List.getElem?_concat_length]

-- A job is sent as its request came, to an available handler. Its request came before or just now.
inductive Explains (l : List Incoming) (s s' : TycheEngine) : Output → Prop
  | quiet (o : Output) (h : ¬o.IsDispatch) : Explains l s s' o
  | sent (c : Key) (n : ℕ) (i : Incoming) (topic : Hashed) (hs : List ModuleId) (h : ModuleId)
      (number : s.jobTracking.get? c = some n ∨ n = s.created) (request : l[n]? = some i)
      (corrId : i.msg.correlationId.hash = .ok c) (event : i.msg.event.hashed = .ok topic)
      (available : s'.available topic = .ok hs) (mem : h ∈ hs) :
      Explains l s s' (.dispatch c h i.identity i.topicFrame i.messageFrame)

theorem available_of_tables (ht : s'.tables = s.tables) :
    s'.available topic = s.available topic :=
  congrArg (fun x : Tables => Proc.chosen (fun m => if topic.key ∈ x.2.1.getD (.ofModule m) [] then
    Except.ok false else (x.2.2.getD (.ofModule m) (.dict [])).allows topic) (x.1.getD topic.key []))
    ht

theorem Explains.of_tables (he : Explains l s s₁ o) (ht : s'.tables = s₁.tables) :
    Explains l s s' o := by
  cases he
  case quiet ho                          => exact .quiet o ho
  case sent c n i topic hs h hn hi hc hd ha hm =>
    exact .sent c n i topic hs h hn hi hc hd (available_of_tables ht ▸ ha) hm

theorem turns_explains (hl : Ledger deserialize l s') (ht : s'.tables = s₁.tables)
    (hn : ∀ c n, s'.jobTracking.get? c = some n → s.jobTracking.get? c = some n ∨ n = s.created)
    (h : Turns lost s₁ s') : Grows (Explains l s s') s₁.out s'.out := by
  cases h
  case idle _ ho     => exact ho.mono fun o => .quiet o
  case lose ho       => exact .of_eq ho
  case send ref h hr hk ho =>
    obtain ⟨i, hi, hc, hof⟩ := hl.tracked _ _ hk
    obtain ⟨hs, ha, hh, -⟩ := hr.selects
    have hd : (s'.infos ref).dispatch ref.corrId h =
        .dispatch ref.corrId h i.identity i.topicFrame i.messageFrame := by
      rw [← hof.requesterId, ← hof.topicFrame, ← hof.messageFrame]
      rfl
    rw [ho, hd]
    exact .concat <| .sent _ _ i _ hs h (hn _ _ hk) hi hc hof.topic
      (available_of_tables ht ▸ ha) (List.mem_of_getElem? hh)

theorem moves_explains (hl : Ledger deserialize l s) (hr : s.Retains s₁)
    (h : Relation.ReflTransGen (Move lost) s₁ s') :
    s.Retains s' ∧ s'.tables = s₁.tables ∧ Grows (Explains l s s') s₁.out s'.out := by
  induction h
  case refl => exact ⟨hr, rfl, .of_eq rfl⟩
  case tail s₂ s₃ _ hm hi =>
    obtain ⟨hr, ht, hg⟩ := hi
    have hr := hr.trans hm.retains
    refine ⟨hr, hm.tables.trans ht, (hg.mono fun o ho => ho.of_tables hm.tables).trans ?_⟩
    exact turns_explains (hl.retains hr) hm.tables (fun c n hn => .inl <| hr.tracking c n hn) hm.turns

-- The request that a call makes a job for.
inductive Makes (s s' : TycheEngine) : Call → List Incoming → Prop
  | none (call : Call) (h : s'.created = s.created) : Makes s s' call []
  | some (i : Incoming) (h : s'.created = s.created + 1) : Makes s s' (.receive i) [i]

theorem perform_ledger (hl : Ledger deserialize l s)
    (hd : ∀ i, call = .receive i → deserialize i.messageFrame = some i.msg) :
    let s' := (s.perform deserialize works call).2
    ∃ l', Makes s s' call l' ∧ Ledger deserialize (l ++ l') s' ∧
      s'.tables = (s.prepared call).tables ∧ Grows (Explains (l ++ l') s s') s.out s'.out := by
  dsimp only
  have hp : s.Prepares (s.prepared call) := prepares
  rcases @perform_moves deserialize works s call with hm | ⟨i, rfl, he⟩
  case inl =>
    obtain ⟨hr, ht, hg⟩ := moves_explains hl hp.retains hm
    refine ⟨[], .none call hr.created, ?_, ht, ?_⟩
    · exact (List.append_nil l).symm ▸ hl.retains hr
    · exact (List.append_nil l).symm ▸ hp.out ▸ hg
  case inr =>
    have hl' := (hl.retains hp.retains).enters he (hd i rfl)
    refine ⟨[i], .some i (he.created.trans <| congrArg (· + 1) hp.retains.created), hl', he.tables, ?_⟩
    rw [← hp.out]
    refine turns_explains hl' he.tables (fun c n hn => ?_) he.turns
    rcases he.tracking c n hn with ⟨hn, -⟩ | ⟨rfl, -⟩
    case inl => exact .inl <| hp.retains.tracking c n hn
    case inr => exact .inr hp.retains.created

theorem marks_of_tables (ht : s'.tables = s.tables) : s'.marks h = s.marks h :=
  congrArg (fun x : Tables => x.2.1.getD (.ofModule h) []) ht

-- A marked handler is not available for the topic that it is marked for.
theorem Explains.not_dispatches (he : Explains l s s' o)
    (hd : ∀ i ∈ l, deserialize i.messageFrame = some i.msg) (ht : t ∈ s'.marks h) :
    ¬o.Dispatches deserialize t h := by
  intro ho
  cases he
  case quiet hn =>
    cases o
    case dispatch => exact hn trivial
    all_goals exact ho
  case sent c n i topic hs h' _ hi _ hv ha hm =>
    obtain ⟨rfl, msg, hmsg, hk⟩ := ho
    cases hmsg.symm.trans <| hd i <| List.mem_of_getElem? hi
    have hk : topic.key = t := by
      have hv := Value.hash_of_hashed hv
      rw [hk] at hv
      exact (Except.ok.inj hv).symm
    have ha := (((Proc.chosen_eq_ok ha).right _).mp hm).right
    rw [isHandlerAvailable, if_pos (hk ▸ ht)] at ha
    cases ha

theorem mem_marks_mark {h' : ModuleId} (hm : t ∈ s.marks h) :
    t ∈ (s.mark (.ofModule h') c).marks h := by
  rw [marks, Dict.getD, mark, setMarks, Dict.get?_set]
  split
  case isTrue hk => exact List.mem_insert_of_mem (hk ▸ hm)
  case isFalse   => exact hm

theorem mem_marks_mark_self : t ∈ (s.mark (.ofModule h) t).marks h := by
  rw [marks, Dict.getD, mark, setMarks, Dict.get?_set_self]
  exact List.mem_insert_self

theorem marks_addInterfaces {is : List Interface} :
    (addInterfaces m is s).2.marks h = s.marks h := by
  induction is generalizing s
  case nil => rfl
  case cons i is hi =>
    rw [addInterfaces]
    split
    case h_1 => rfl
    case h_2 =>
      rw [hi]
      split <;> rfl

theorem mem_marks_prepared (hm : t ∈ s.marks h) (hc : ¬call.Ends h) :
    t ∈ (s.prepared call).marks h := by
  cases call
  case tick => exact hm
  case receive i =>
    rw [prepared]
    split
    case isTrue  => exact (marks_of_tables arrive_tables).symm ▸ hm
    case isFalse => exact hm
  case timeout c r =>
    rw [prepared]
    cases s.marked c r
    case none   => exact hm
    case some x => exact mem_marks_mark hm
  case heartbeat msg =>
    rw [prepared]
    split
    case h_1 k v hk hv =>
      have hk : .ofModule h ≠ k := fun he => hc ⟨he ▸ hk, v, hv⟩
      rw [marks, Dict.getD, alive, eraseMarks, Dict.get?_erase_ne hk]
      cases v <;> exact hm
    case h_2 => exact hm
  case register info =>
    have hr : (s.registerModule info).2.marks h = s.marks h := marks_addInterfaces
    exact hr.symm ▸ hm
  case unregister m' =>
    rw [prepared, unregisterModule]
    split
    case isTrue =>
      have hk : Key.ofModule h ≠ .ofModule m' :=
        fun he => hc <| Subtype.ext <| (Key.str.inj he).symm
      rw [marks, Dict.getD, Dict.get?_erase_ne hk]
      exact hm
    case isFalse => exact hm

end TycheEngine

namespace Action

-- A heartbeat of the module is processed, or the module is registered again or unregistered.
def Ends (deserialize : Bytes → Option Message) (h : ModuleId) : Action → Prop
  | .heartbeat frames _ => ∃ msg ∈ heartbeat? deserialize frames,
    msg.sender.hash = .ok (.ofModule h) ∧ ∃ v, TycheEngine.reported msg.payload = .ok v
  | .register info      => info.moduleId = h
  | .unregister m       => m = h
  | _                   => False

end Action

namespace Workers

variable {s s' s₁ s₂ : Workers} {a : Action} {as bs : List Action}

theorem ends_of_call? (hc : s.call? deserialize a = some (call, works)) (h : call.Ends m) :
    a.Ends deserialize m := by
  cases a
  case tick       => cases hc; exact h
  case scan       => cases hc
  case register   => cases hc; exact h
  case unregister => cases hc; exact h
  case receive    => obtain ⟨_, _, he⟩ := Option.map_eq_some_iff.mp hc; cases he; exact h
  case timeout    => obtain ⟨_, _, he⟩ := Option.map_eq_some_iff.mp hc; cases he; exact h
  case heartbeat  =>
    obtain ⟨msg, hm, he⟩ := Option.map_eq_some_iff.mp hc
    cases he
    exact ⟨msg, hm, h⟩

theorem call?_eq_receive (hc : s.call? deserialize a = some (.receive i, works)) :
    ∃ frames, a = .receive frames works ∧ incoming deserialize frames = some i := by
  cases a
  case tick       => cases hc
  case scan       => cases hc
  case register   => cases hc
  case unregister => cases hc
  case timeout    => obtain ⟨_, _, he⟩ := Option.map_eq_some_iff.mp hc; cases he
  case heartbeat  => obtain ⟨_, _, he⟩ := Option.map_eq_some_iff.mp hc; cases he
  case receive frames _ =>
    obtain ⟨_, hi, he⟩ := Option.map_eq_some_iff.mp hc
    cases he
    exact ⟨frames, rfl, hi⟩

-- The request that a step makes a job for. Jobs are numbered in the order in which they are made.
def accepted (deserialize : Bytes → Option Message) (s s' : Workers) : Action → List Incoming
  | .receive frames _ =>
    if s'.engine.created = s.engine.created then [] else (incoming deserialize frames).toList
  | _ => []

def requests (deserialize : Bytes → Option Message) : Workers → List Action → List Incoming
  | _, []      => []
  | s, a :: as =>
    (s.step deserialize a).elim [] fun s' => s.accepted deserialize s' a ++ requests deserialize s' as

-- The handler has had a job of the topic for too long, as the timeout worker finds.
def RunTimeout (s : Workers) (h : ModuleId) (t : Key) : Action → Prop
  | .timeout _ => ∃ job ∈ s.timedOut.head?, job.2 = .runTimeout ∧
    ∃ info ∈ s.engine.tracking? job.1, info.handlerId = some h ∧ info.topic.key = t
  | _          => False

instance : ∀ a, Decidable (s.RunTimeout h t a)
  | .timeout _    => inferInstanceAs <| Decidable (∃ _ ∈ _, _)
  | .tick _       => isFalse id
  | .receive _ _  => isFalse id
  | .scan         => isFalse id
  | .heartbeat .. => isFalse id
  | .register _   => isFalse id
  | .unregister _ => isFalse id

theorem incoming_decoded {frames : List Bytes} (h : incoming deserialize frames = some i) :
    deserialize i.messageFrame = some i.msg := by
  rw [incoming.eq_def] at h
  split at h
  case h_1 =>
    obtain ⟨msg, hd, rfl⟩ := Option.map_eq_some_iff.mp h
    exact hd
  case h_2 => cases h

theorem accepted_of_makes (hc : s.call? deserialize a = some (call, works))
    (hm : TycheEngine.Makes s.engine s'.engine call l) : s.accepted deserialize s' a = l := by
  cases hm
  case none h =>
    cases a
    case receive => exact if_pos h
    all_goals rfl
  case some i h =>
    obtain ⟨frames, rfl, hi⟩ := call?_eq_receive hc
    rw [accepted, if_neg (h ▸ Nat.succ_ne_self _), hi]
    rfl

theorem step_ledger (hl : TycheEngine.Ledger deserialize l s.engine)
    (e : s.step deserialize a = some s') :
    let l' := l ++ s.accepted deserialize s' a
    TycheEngine.Ledger deserialize l' s'.engine ∧
      s'.engine.tables = ((s.call? deserialize a).elim s.engine fun c => s.engine.prepared c.1).tables ∧
      Grows (TycheEngine.Explains l' s.engine s'.engine) s.engine.out s'.engine.out := by
  have he := step_engine e
  dsimp only
  cases hc : s.call? deserialize a
  case none =>
    rw [hc, Option.elim_none] at he
    have ha : s.accepted deserialize s' a = [] := by
      cases a <;> simp [accepted, he]
    rw [ha, List.append_nil, he]
    exact ⟨hl, rfl, .of_eq rfl⟩
  case some x =>
    obtain ⟨call, works⟩ := x
    rw [hc, Option.elim_some] at he
    have hd : ∀ i, call = .receive i → deserialize i.messageFrame = some i.msg := by
      rintro i rfl
      obtain ⟨frames, -, hi⟩ := call?_eq_receive hc
      exact incoming_decoded hi
    obtain ⟨l', hm, hl', ht, hg⟩ := @TycheEngine.perform_ledger _ works _ _ _ hl hd
    rw [← he] at hm hl' ht hg
    rw [accepted_of_makes hc hm]
    exact ⟨hl', ht, hg⟩

theorem start_ledger {now : ℚ} : TycheEngine.Ledger deserialize [] (start now).engine where
  length        := rfl
  decoded _ h   := absurd h List.not_mem_nil
  tracked _ _ h := by cases h

theorem exec_ledger (hl : TycheEngine.Ledger deserialize l s.engine)
    (e : (workers deserialize).exec s as = some s') :
    TycheEngine.Ledger deserialize (l ++ requests deserialize s as) s'.engine := by
  induction as generalizing s l
  case nil => cases e; exact (List.append_nil l).symm ▸ hl
  case cons a as hi =>
    obtain ⟨s₁, h, e⟩ := Machine.exec_cons_eq_some_iff.mp e
    have h : s.step deserialize a = some s₁ := h
    rw [requests, h, Option.elim_some, ← List.append_assoc]
    exact hi (step_ledger hl h).left e

theorem requests_concat (e : (workers deserialize).exec s as = some s₁)
    (e' : s₁.step deserialize a = some s') : requests deserialize s (as ++ [a]) =
      requests deserialize s as ++ s₁.accepted deserialize s' a := by
  induction as generalizing s
  case nil =>
    cases e
    simp only [List.nil_append, requests, e', Option.elim_some, List.append_nil]
  case cons b as hi =>
    obtain ⟨s₂, h, e⟩ := Machine.exec_cons_eq_some_iff.mp e
    have h : s.step deserialize b = some s₂ := h
    rw [List.cons_append, requests, requests, h, Option.elim_some, Option.elim_some, hi e,
      List.append_assoc]

theorem step_excluded (hl : TycheEngine.Ledger deserialize l s.engine)
    (e : s.step deserialize a = some s') (hm : t ∈ s'.engine.marks h) :
    Grows (fun o => ¬o.Dispatches deserialize t h) s.engine.out s'.engine.out :=
  have ⟨hl, _, hg⟩ := step_ledger hl e
  hg.mono fun _ ho => ho.not_dispatches hl.decoded hm

theorem step_marked (hl : TycheEngine.Ledger deserialize l s.engine)
    (e : s.step deserialize a = some s') (hm : t ∈ s.engine.marks h)
    (ha : ¬a.Ends deserialize h) : t ∈ s'.engine.marks h := by
  rw [TycheEngine.marks_of_tables (step_ledger hl e).right.left]
  cases hc : s.call? deserialize a
  case none   => exact hm
  case some x => exact TycheEngine.mem_marks_prepared hm <| mt (ends_of_call? hc) ha

theorem runTimeout_marked (hl : TycheEngine.Ledger deserialize l s.engine)
    (e : s.step deserialize a = some s') (hr : s.RunTimeout h t a) : t ∈ s'.engine.marks h := by
  rw [TycheEngine.marks_of_tables (step_ledger hl e).right.left]
  cases a
  case timeout works =>
    obtain ⟨⟨c, _⟩, hj, rfl, info, hi, hh, rfl⟩ := hr
    have hk : s.engine.marked c .runTimeout = some (h, info.topic.key) := by
      rw [TycheEngine.marked, Option.mem_def.mp hi, Option.bind_some, hh, Option.map_some]
    rw [call?, Option.mem_def.mp hj, Option.map_some, Option.elim_some, TycheEngine.prepared, hk]
    exact TycheEngine.mem_marks_mark_self
  all_goals exact absurd hr id

theorem exec_excluded (hl : TycheEngine.Ledger deserialize l s.engine)
    (hm : t ∈ s.engine.marks h) (hb : ∀ b ∈ bs, ¬b.Ends deserialize h)
    (e : (workers deserialize).exec s bs = some s') :
    Grows (fun o => ¬o.Dispatches deserialize t h) s.engine.out s'.engine.out := by
  induction bs generalizing s l
  case nil => cases e; exact .of_eq rfl
  case cons b bs hi =>
    obtain ⟨s₁, h₁, e⟩ := Machine.exec_cons_eq_some_iff.mp e
    obtain ⟨hn, hb⟩ := List.forall_mem_cons.mp hb
    have hm := step_marked hl h₁ hm hn
    exact (step_excluded hl h₁ hm).trans <| hi (step_ledger hl h₁).left hm hb e

-- The request of a job that is sent to a handler. The job was tracked before the step, or it is made
-- in the step.
def Forwards (deserialize : Bytes → Option Message) (now : ℚ) (as : List Action) (s : Workers)
    (a : Action) : Output → Prop
  | .dispatch c _ identity topicFrame messageFrame => ∃ n,
    (s.engine.jobTracking.get? c = some n ∨ n = s.engine.created) ∧
    ∃ i ∈ (requests deserialize (start now) (as ++ [a]))[n]?, i.msg.correlationId.hash = .ok c ∧
      identity = i.identity ∧ topicFrame = i.topicFrame ∧ messageFrame = i.messageFrame
  | _ => True

-- In every run, what a step sends for a job is what came with the job's request, and a handler whose
-- job has timed out is sent none of its topic.
theorem retry_exclusion (now : ℚ) (as : List Action) (s : Workers)
    (e : (workers deserialize).exec (.start now) as = some s) :
    (∀ h t a s₁ bs s₂, s.RunTimeout h t a → s.step deserialize a = some s₁ →
      (∀ b ∈ bs, ¬b.Ends deserialize h) → (workers deserialize).exec s₁ bs = some s₂ →
      ∀ o ∈ s₂.engine.out.drop s.engine.out.length, ¬o.Dispatches deserialize t h) ∧
    ∀ a s', s.step deserialize a = some s' →
      ∀ o ∈ s'.engine.out.drop s.engine.out.length, s.Forwards deserialize now as a o := by
  have hl := exec_ledger start_ledger e
  constructor
  case left =>
    intro h t a s₁ bs s₂ hr h₁ hb e₂ o ho
    have hm := runTimeout_marked hl h₁ hr
    have hg := (step_excluded hl h₁ hm).trans <| exec_excluded (step_ledger hl h₁).left hm hb e₂
    exact hg.drop ho
  case right =>
    intro a s' h o ho
    have hx := (step_ledger hl h).right.right.drop ho
    cases hx
    case quiet hq => cases o <;> first | trivial | exact absurd trivial hq
    case sent c n i _ _ _ hn hi hc _ _ _ =>
      rw [List.nil_append, ← requests_concat e h] at hi
      exact ⟨n, hn, i, hi, hc, rfl, rfl, rfl⟩

-- The second of two handlers gets the job that the first one has had for too long.
def overdueJob : List Action :=
  [Sample.register (Sample.worker 1), Sample.register (Sample.worker 2),
    Sample.request (utf8 "a"), .tick 61, .scan]

theorem overdueJob_runTimeout : ∃ s ∈ (workers Sample.unpack).exec (.start 0) overdueJob,
    s.RunTimeout (Sample.worker 1) (.str <| utf8 "t") (.timeout fun _ => true) := by
  decide +kernel

theorem retry_exclusion_overdueJob :
    ∃ s ∈ (workers Sample.unpack).exec (.start 0) overdueJob,
      ∀ s₁ ∈ s.step Sample.unpack (.timeout fun _ => true),
      ∀ o ∈ s₁.engine.out.drop s.engine.out.length,
        ¬o.Dispatches Sample.unpack (.str <| utf8 "t") (Sample.worker 1) := by
  obtain ⟨s, e, hr⟩ := overdueJob_runTimeout
  refine ⟨s, e, fun s₁ h => ?_⟩
  exact (retry_exclusion 0 overdueJob s e).left _ _ _ s₁ [] s₁ hr h nofun rfl

end Workers

end Python
