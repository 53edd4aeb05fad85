import Tyche.Python.Theorems.Output

namespace Python

open Proc

variable {deserialize : Bytes → Option Message} {works : Output → Bool} {c k : Key} {r : Reason}

def Output.GivesUp (c : Key) : Output → Prop
  | deadLetter k _ _ | timedOut k .waitTimeout _ _ _ => k = c
  | _ => False

instance : ∀ o : Output, Decidable (o.GivesUp c)
  | .deadLetter k _ _              => inferInstanceAs <| Decidable (k = c)
  | .timedOut k .waitTimeout _ _ _ => inferInstanceAs <| Decidable (k = c)
  | .timedOut _ .runTimeout _ _ _  => isFalse id
  | .answer ..                     => isFalse id
  | .dispatch ..                   => isFalse id
  | .response ..                   => isFalse id
  | .noHandler ..                  => isFalse id

theorem Value.exceededBy_mono {t t' : ℚ} {v : Value} (h : v.exceededBy t = .ok true)
    (ht : t ≤ t') : v.exceededBy t' = .ok true := by
  have hd {p q : Prop} [Decidable p] [Decidable q] (hpq : p → q)
      (hp : (.ok (decide p) : Except Error Bool) = .ok true) :
      (.ok (decide q) : Except Error Bool) = .ok true :=
    congrArg Except.ok <| decide_eq_true <| hpq <| of_decide_eq_true <| Except.ok.inj hp
  cases v <;> rw [exceededBy.eq_def] at h ⊢
  case bool | int => exact hd (lt_of_lt_of_le · ht) h
  case float      => exact hd (Floating.ExceededBy.mono · ht) h
  case decimal x _ =>
    cases x
    case nan => cases h
    all_goals exact hd (Floating.ExceededBy.mono · ht) h
  all_goals cases h

theorem timedOut_waitTimeout {t : ℚ} {info : TrackingInfo}
    (h : timedOut t info = .ok (some .waitTimeout)) : info.handlerId = none ∧
      info.waitTimeout.exceededBy (t - info.waitStartTime) = .ok true := by
  rw [timedOut] at h
  split at h
  case h_1 t₀ _ _ =>
    match hx : info.runTimeout.exceededBy (t - t₀) with
    | .error _  => rw [hx] at h; cases h
    | .ok true  => rw [hx] at h; cases h
    | .ok false => rw [hx] at h; cases h
  case h_2 => cases h
  case h_3 hh =>
    match hx : info.waitTimeout.exceededBy (t - info.waitStartTime) with
    | .error _  => rw [hx] at h; cases h
    | .ok true  => exact ⟨hh, rfl⟩
    | .ok false => rw [hx] at h; cases h

theorem timedOutJobs_eq_ok {t : ℚ} {js : List (Key × TrackingInfo)} {found : List (Key × Reason)}
    (h : timedOutJobs t js = .ok found) : (found.map Prod.fst).Sublist (js.map Prod.fst) ∧
      ∀ job ∈ found, ∃ info, (job.1, info) ∈ js ∧ timedOut t info = .ok (some job.2) := by
  induction js generalizing found
  case nil => cases h; simp
  case cons j js hi =>
    obtain ⟨k, info⟩ := j
    rw [timedOutJobs] at h
    match hr : timedOut t info, hj : timedOutJobs t js with
    | .error _, _    => rw [hr] at h; cases h
    | .ok _, .error _ => rw [hr, hj] at h; cases h
    | .ok r, .ok js'  =>
      rw [hr, hj] at h
      have ⟨hs, hm⟩ := hi hj
      cases r <;> cases h
      case none   =>
        refine ⟨hs.cons k, fun job h => ?_⟩
        have ⟨i, hi, ht⟩ := hm job h
        exact ⟨i, List.mem_cons_of_mem _ hi, ht⟩
      case some r =>
        refine ⟨hs.cons_cons k, fun job h => ?_⟩
        rcases List.mem_cons.mp h with rfl | h
        case inl => exact ⟨info, List.mem_cons_self, hr⟩
        case inr =>
          have ⟨i, hi, ht⟩ := hm job h
          exact ⟨i, List.mem_cons_of_mem _ hi, ht⟩

namespace TycheEngine

variable {s s' : TycheEngine} {P : Output → Prop} {call : Call}

theorem fail_grows (ref : Ref) (hl : r = .waitTimeout → ∀ t m, P (.deadLetter ref.corrId t m))
    (ht : ∀ i tf t, P (.timedOut ref.corrId r i tf t)) :
    Grows P s.out (s.fail deserialize works ref r).out := by
  let s' := if r = .waitTimeout then s.persisting deserialize works ref else s
  have hp : Grows P s.out s'.out := by
    rw [show s' = ite _ _ _ from rfl]
    split
    case isTrue hr =>
      rw [persisting]
      split
      · exact .of_eq rfl
      · exact trying_grows (hl hr ..)
    case isFalse => exact .of_eq rfl
  exact hp.trans <| trying_grows (s := s'.erasePending ref.corrId) (ht ..)

theorem handleJobTimeout_grows (hd : ∀ c h i tf mf, P (.dispatch c h i tf mf))
    (hl : k ∈ s.jobTracking → r = .waitTimeout → ∀ t m, P (.deadLetter k t m))
    (ht : k ∈ s.jobTracking → ∀ i tf t, P (.timedOut k r i tf t)) :
    Grows P s.out ((handleJobTimeout k r).run (exec deserialize works) s).2.out := by
  rw [run_handleJobTimeout]
  match hn : s.jobTracking.get? k with
  | none   => exact .of_eq rfl
  | some n =>
    have hk : k ∈ s.jobTracking := Dict.mem_of_get? hn
    have hf : Grows P s.out ((s.untrack k).fail deserialize works ⟨k, n⟩ r).out :=
      fail_grows (s := s.untrack k) ⟨k, n⟩ (hl hk) (ht hk)
    dsimp only
    match r, (s.infos ⟨k, n⟩).handlerId with
    | .waitTimeout, some _ => exact hf
    | .waitTimeout, none   => exact hf
    | .runTimeout,  none   => exact hf
    | .runTimeout,  some h =>
      dsimp only
      generalize hs : (s.untrack k).mark (.ofModule h) (s.infos ⟨k, n⟩).topic.key = s₁
      have ho : s₁.out = s.out := hs ▸ rfl
      have hr : Grows P s.out ((retryJob ⟨k, n⟩).run (exec deserialize works) s₁).2.out :=
        ho ▸ run_grows (retryJob_sends hd)
      generalize (retryJob ⟨k, n⟩).run (exec deserialize works) s₁ = x at hr ⊢
      match x, hr with
      | (.error _, _), hr  => exact hr
      | (.ok true, _), hr  => exact hr
      | (.ok false, _), hr => exact hr

theorem receive_grows {i : Incoming} (ha : ∀ c i, P (.answer c i))
    (hd : ∀ c h i tf mf, P (.dispatch c h i tf mf)) (hn : ∀ v i tf t, P (.noHandler v i tf t))
    (hr : ∀ c r tf mf, P (.response c r tf mf)) :
    Grows P s.out (s.perform deserialize works (.receive i)).2.out := by
  refine (arrive_grows (i := i) ha).trans ?_
  rw [perform, Python.run, Python.route]
  split
  · exact run_grows <| handleJobRequest_sends hd fun _ _ => hn ..
  · exact handleJobResponse_grows fun c r _ => hr ..
  · exact .of_eq rfl

-- Only the handling of a wait timeout gives a job up.
theorem perform_givesUp : Grows
    (fun o => o.GivesUp c → call = .timeout c .waitTimeout ∧ c ∈ s.jobTracking) s.out
      (s.perform deserialize works call).2.out := by
  cases call
  case tick      => exact .of_eq rfl
  case receive i =>
    exact receive_grows (fun _ _ h => h.elim) (fun _ _ _ _ _ h => h.elim)
      (fun _ _ _ _ h => h.elim) fun _ _ _ _ h => h.elim
  case timeout k r =>
    refine handleJobTimeout_grows (fun _ _ _ _ _ h => h.elim) ?_ ?_
    · rintro hk rfl _ _ rfl
      exact ⟨rfl, hk⟩
    · intro hk _ _ _ h
      cases r <;> cases h
      exact ⟨rfl, hk⟩
  case heartbeat => exact run_grows <| handleHeartbeat_sends fun _ _ _ _ _ h => h.elim
  case register  => exact .of_eq addInterfaces_out
  case unregister =>
    rw [perform, unregisterModule]
    split <;> exact .of_eq rfl

end TycheEngine

namespace Workers

variable {s s' : Workers} {a : Action}

-- The action ends the job because of its wait timeout.
def GivesUp (deserialize : Bytes → Option Message) (s : Workers) (a : Action) (c : Key) : Prop :=
  ∃ s' ∈ s.step deserialize a, ∃ o ∈ s'.engine.out.drop s.engine.out.length, o.GivesUp c

-- The time is not longer ago than the wait timeout of the job.
def Recent (s : Workers) (c : Key) (t : ℚ) : Prop :=
  ∃ info ∈ s.engine.tracking? c, info.waitTimeout.exceededBy (s.engine.now - t) ≠ .ok true

instance : Decidable (GivesUp deserialize s a c) :=
  inferInstanceAs <| Decidable (∃ _ ∈ _, ∃ _ ∈ _, _)

instance {t : ℚ} : Decidable (Recent s c t) :=
  inferInstanceAs <| Decidable (∃ _ ∈ _, _)

-- The job that the timeout worker handles.
def handled (s : Workers) : Action → Option (Key × Reason)
  | .timeout _ => s.timedOut.head?
  | _          => none

-- A job that is handled because of its wait timeout and is still tracked is still due.
def Due (s : Workers) (a : Action) : Prop :=
  ∀ job ∈ s.handled a, job.2 = .waitTimeout → ∀ info ∈ s.engine.tracking? job.1,
    Python.timedOut s.engine.now info = .ok (some .waitTimeout)

-- An action that puts a job back to waiting does so at the time at which the job arrived.
def PutsBackAtOnce (deserialize : Bytes → Option Message) (s : Workers) (a : Action) : Prop :=
  ∀ c, s.event deserialize a c = .putBack → ∀ info ∈ s.engine.tracking? c,
    s.engine.now ≤ info.waitStartTime

instance : Decidable (Due s a) :=
  inferInstanceAs <| Decidable (∀ _ ∈ _, _ → ∀ _ ∈ _, _)

instance : Decidable (PutsBackAtOnce deserialize s a) :=
  decidable_of_iff (∀ c, ∀ info ∈ s.engine.tracking? c, s.event deserialize a c = .putBack →
      s.engine.now ≤ info.waitStartTime)
    ⟨fun h c hv info hi => h c info hi hv, fun h c info hi hv => h c hv info hi⟩

theorem GivesUp.handled (hg : GivesUp deserialize s a c) :
    (c, .waitTimeout) ∈ s.handled a ∧ c ∈ s.engine.jobTracking := by
  have ⟨s', e, o, ho, hg⟩ := hg
  rw [step_engine e] at ho
  cases hc : s.call? deserialize a
  case none =>
    rw [hc, Option.elim_none, List.drop_length] at ho
    exact absurd ho List.not_mem_nil
  case some call =>
    rw [hc] at ho
    have ⟨ht, hk⟩ := TycheEngine.perform_givesUp.drop ho hg
    refine ⟨?_, hk⟩
    cases a <;> simp only [call?, Option.some.injEq, Option.map_eq_some_iff, reduceCtorEq] at hc
    case timeout =>
      obtain ⟨⟨k, r⟩, hj, rfl⟩ := hc
      cases ht
      exact hj
    case tick | register | unregister => subst hc; cases ht
    case receive | heartbeat          => obtain ⟨_, _, rfl⟩ := hc; cases ht

theorem GivesUp.waiting (hg : GivesUp deserialize s a c) (hd : Due s a) :
    ∃ e ∈ (s.job c).entry, e.Waiting ∧ ∀ t, Recent s c t → e.waitStart < t := by
  have ⟨hh, hk⟩ := hg.handled
  have ⟨n, hn⟩ := Dict.mem_iff.mp hk
  have hi : s.engine.tracking? c = some (s.engine.infos ⟨c, n⟩) := TycheEngine.tracking?_eq_some hn
  have ⟨hw, hx⟩ := timedOut_waitTimeout <| hd _ hh rfl _ hi
  refine ⟨_, congrArg (Option.map TrackingInfo.entry) hi, hw, fun t ⟨_, hi', hn⟩ => ?_⟩
  cases Option.mem_unique hi hi'
  by_contra hl
  exact hn <| Value.exceededBy_mono hx <| sub_le_sub_left (not_lt.mp hl) _

-- A pass of the timeout worker is not interrupted.
def Prompt (s : Workers) (a : Action) : Prop :=
  s.timedOut ≠ [] → s.handled a ≠ none

-- The jobs that are yet to be handled are different ones, and they are due.
structure Settled (s : Workers) : Prop where
  nodup : (s.timedOut.map Prod.fst).Nodup
  due   : ∀ job ∈ s.timedOut, ∀ info ∈ s.engine.tracking? job.1,
    Python.timedOut s.engine.now info = .ok (some job.2)

theorem Settled.due_of_handled (h : s.Settled) : Due s a := by
  rintro ⟨k, r⟩ hj rfl info hi
  cases a
  case timeout => exact h.due _ (List.mem_of_mem_head? hj) info hi
  all_goals cases hj

theorem Settled.of_nil (h : s.timedOut = []) : s.Settled where
  nodup := by rw [h]; exact .nil
  due   := by rw [h]; exact fun _ hm => absurd hm List.not_mem_nil

theorem scan_settled (h : s.Settled) : s.scan.Settled := by
  rw [scan]
  split
  case h_1 jobs hj =>
    obtain ⟨hs, hd⟩ := timedOutJobs_eq_ok hj
    rw [TycheEngine.tracked_keys] at hs
    refine ⟨s.engine.jobTracking.keys_nodup.sublist hs, fun job hm info hi => ?_⟩
    obtain ⟨info', hi', hd⟩ := hd job hm
    cases Option.mem_unique hi <| TycheEngine.mem_tracked.mp hi'
    exact hd
  case h_2 => exact ⟨h.nodup, h.due⟩

theorem timeout_settled {job : Key × Reason} (hj : s.timedOut.head? = some job) (h : s.Settled) :
    (s.timeout deserialize works job).Settled := by
  have ⟨js, hjs⟩ : ∃ js, s.timedOut = job :: js := ⟨_, List.eq_cons_of_mem_head? hj⟩
  have hn := h.nodup
  rw [hjs, List.map_cons, List.nodup_cons] at hn
  have ht : (s.timeout deserialize works job).timedOut = js := by rw [timeout, hjs]; rfl
  constructor
  case nodup => exact ht ▸ hn.right
  case due   =>
    intro job' hm info hi
    rw [ht] at hm
    have hne : job'.1 ≠ job.1 := fun e => hn.left <| e ▸ List.mem_map_of_mem hm
    have hu : TycheEngine.Untouched job'.1 s.engine (s.timeout deserialize works job).engine :=
      TycheEngine.handleJobTimeout_untouched hne
    have hw : (s.timeout deserialize works job).engine.now = s.engine.now := TycheEngine.run_now
    rw [hu.tracking?] at hi
    rw [hw]
    exact h.due job' (hjs ▸ List.mem_cons_of_mem _ hm) info hi

theorem step_timedOut (e : s.step deserialize a = some s') (h : s.timedOut = [])
    (ha : a ≠ .scan) : s'.timedOut = [] := by
  cases a <;> simp only [step, Option.ite_none_right_eq_some, Option.ite_none_left_eq_some,
    Option.some.injEq] at e
  case scan      => exact absurd rfl ha
  case tick      => exact e.right ▸ h
  case receive   =>
    rw [← e.right, receive]
    cases incoming deserialize _ <;> exact h
  case timeout   => simp [h] at e
  case heartbeat =>
    rw [← e]
    cases heartbeat? deserialize _ <;> exact h
  case register | unregister => exact e ▸ h

theorem step_settled (hp : s.Prompt a) (e : s.step deserialize a = some s') (h : s.Settled) :
    s'.Settled := by
  by_cases hn : s.timedOut = []
  case neg =>
    have hp := hp hn
    cases a
    case timeout =>
      rw [step, Option.ite_none_left_eq_some] at e
      obtain ⟨_, hj, e⟩ := Option.map_eq_some_iff.mp e.right
      exact e ▸ timeout_settled hj h
    all_goals exact absurd rfl hp
  case pos =>
    by_cases ha : a = .scan
    case neg => exact .of_nil <| step_timedOut e hn ha
    case pos =>
      subst ha
      rw [step, Option.ite_none_left_eq_some] at e
      exact Option.some.inj e.right ▸ scan_settled h

end Workers

namespace broker

open Workers

variable {now : ℚ} {as : List Action}

-- Jobs are still due when they are handled as soon as they are found.
theorem along_due_of_prompt (hp : (broker deserialize).Along Prompt (.start now) as) :
    (broker deserialize).Along Due (.start now) as := by
  have hs : (broker deserialize).Always Settled (.start now) as :=
    Machine.always_of_step (fun _ _ _ h hp e => step_settled hp e h) (.of_nil rfl) hp
  exact hs.along hp fun _ _ h _ => h.due_of_handled

theorem measuresWaiting (hd : (broker deserialize).Along Due (.start now) as)
    (hb : (broker deserialize).Along (PutsBackAtOnce deserialize) (.start now) as) :
    (broker deserialize).MeasuresWaiting (GivesUp deserialize) Recent (.start now) as := by
  refine Broker.measuresWaiting_of_stamping (hb.mono fun s a hb c hv e he => ?_) hd fun h hg =>
    hg.waiting h
  have ⟨info, hi, he⟩ := Option.map_eq_some_iff.mp he
  exact he ▸ hb c hv info hi

end broker

end Python
