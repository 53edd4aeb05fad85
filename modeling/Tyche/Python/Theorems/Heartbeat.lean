import Tyche.Python.Heartbeat

namespace Python.Heartbeat

variable {s s₁ s₂ : HeartbeatManager} {p : String} {op : Op} {ops past rest : List Op} {L k n : ℕ}

namespace HeartbeatManager

@[simp]
theorem run_nil : s.run [] = s :=
  rfl

@[simp]
theorem run_cons : s.run (op :: ops) = (s.call op).run ops :=
  rfl

@[simp]
theorem run_append : s.run (ops ++ rest) = (s.run ops).run rest :=
  List.foldl_append

@[simp]
theorem call_liveness : (s.call op).liveness = s.liveness := by
  cases op
  case update q => rw [call, update]; split <;> rfl
  all_goals rfl

@[simp]
theorem run_liveness : (s.run ops).liveness = s.liveness := by
  induction ops generalizing s
  case nil => rfl
  case cons op ops hi => simp [hi]

theorem get?_tick : (s.call .tickAll).monitors.get? p =
    (s.monitors.get? p).map HeartbeatMonitor.tick :=
  Dict.get?_mapVal

-- What an operation on a peer does to its monitor depends on that monitor alone, and the others are
-- left as they are.
theorem get?_call (h : ¬op.Concerns p) (ht : op ≠ .tickAll) :
    (s.call op).monitors.get? p = s.monitors.get? p := by
  cases op
  case tickAll      => cases ht rfl
  case register q   => exact Dict.get?_set_ne (Ne.symm h)
  case unregister q => exact Dict.get?_erase_ne (Ne.symm h)
  case update q     =>
    rw [call, update]
    split
    all_goals exact Dict.get?_set_ne (Ne.symm h)

theorem get?_call_congr (hl : s₁.liveness = s₂.liveness)
    (h : s₁.monitors.get? p = s₂.monitors.get? p) :
    (s₁.call op).monitors.get? p = (s₂.call op).monitors.get? p := by
  by_cases hc : op.Concerns p
  case neg =>
    by_cases ht : op = .tickAll
    case pos => rw [ht, get?_tick, get?_tick, h]
    case neg => rw [get?_call hc ht, get?_call hc ht, h]
  case pos =>
    cases op
    case tickAll      => cases hc
    case register q   => cases hc; simp [call, register, Dict.get?_set_self, hl]
    case unregister q => cases hc; simp [call, unregister, Dict.get?_erase_self]
    case update q     =>
      cases hc
      simp only [call, update, h, hl]
      split <;> simp [Dict.get?_set_self]

theorem get?_run_quiet (h : ∀ o ∈ ops, ¬o.Concerns p) : (s.run ops).monitors.get? p =
    (s.monitors.get? p).map fun m => ⟨m.liveness - ticks ops⟩ := by
  induction ops generalizing s
  case nil => simp [ticks]
  case cons op ops hi =>
    obtain ⟨ho, h⟩ := List.forall_mem_cons.mp h
    rw [run_cons, hi h]
    by_cases ht : op = .tickAll
    case neg => rw [get?_call ho ht, ticks, ticks, List.count_cons_of_ne ht]
    case pos =>
      subst ht
      rw [get?_tick, Option.map_map, ticks, ticks, List.count_cons_self]
      congr 1
      funext m
      simp [HeartbeatMonitor.tick]
      omega

theorem mem_tickAll : p ∈ s.tickAll.1 ↔ ∃ m, s.monitors.get? p = some m ∧ m.liveness ≤ 1 := by
  simp only [tickAll, List.mem_map, List.mem_filter, Prod.exists, ← Dict.get?_eq_some_iff,
    Dict.get?_mapVal, Option.map_eq_some_iff, HeartbeatMonitor.IsExpired]
  constructor
  case mp =>
    rintro ⟨_, _, ⟨⟨m, h, rfl⟩, he⟩, rfl⟩
    exact ⟨m, h, by simpa [HeartbeatMonitor.tick] using he⟩
  case mpr =>
    rintro ⟨m, h, he⟩
    exact ⟨p, m.tick, ⟨⟨m, h, rfl⟩, by simpa [HeartbeatMonitor.tick] using he⟩, rfl⟩

theorem mem_call (h : p ∈ s.monitors) (ho : op ≠ .unregister p) : p ∈ (s.call op).monitors := by
  cases op
  case register q   => exact Dict.mem_set.mpr <| .inr h
  case unregister q => exact Dict.mem_erase.mpr ⟨fun e => ho (e ▸ rfl), h⟩
  case tickAll      => exact Dict.mem_mapVal.mpr h
  case update q     =>
    rw [call, update]
    split
    all_goals exact Dict.mem_set.mpr <| .inr h

theorem mem_monitors_of_registered (h : Registered p ops) : p ∈ (s.run ops).monitors := by
  induction ops using List.reverseRecOn
  case nil => cases h
  case append_singleton ops op hi =>
    rw [run_append, run_cons, run_nil]
    simp only [Registered, List.filter_append, List.filter_singleton] at h
    by_cases ho : op = .register p ∨ op = .unregister p
    case neg =>
      simp only [ho, decide_false, cond_false, List.append_nil] at h
      exact mem_call (hi h) fun e => ho (.inr e)
    case pos =>
      simp only [ho, decide_true, cond_true, List.getLast?_concat, Option.some.injEq] at h
      rw [h]
      exact Dict.mem_set.mpr <| .inl rfl

end HeartbeatManager

-- The engine's own liveness is meant, whichever one the manager was given.
theorem mem_reported_update (hr : Registered p past) (hq : ∀ o ∈ rest, ¬o.Concerns p) :
    p ∈ reported L (past ++ .update p :: rest) ↔ heartbeatLiveness ≤ ticks rest + 1 := by
  obtain ⟨m, hm⟩ := Dict.mem_iff.mp <|
    HeartbeatManager.mem_monitors_of_registered (s := .new L) hr
  rw [reported, HeartbeatManager.mem_tickAll, HeartbeatManager.run_append,
    HeartbeatManager.run_cons, HeartbeatManager.get?_run_quiet hq]
  simp only [HeartbeatManager.call, HeartbeatManager.update, hm, Dict.get?_set_self, Option.map_some,
    HeartbeatMonitor.update, Option.some.injEq, exists_eq_left']
  omega

theorem mem_reported_register (hq : ∀ o ∈ rest, ¬o.Concerns p) :
    p ∈ reported L (past ++ .register p :: rest) ↔ 2 * L ≤ ticks rest + 1 := by
  rw [reported, HeartbeatManager.mem_tickAll, HeartbeatManager.run_append,
    HeartbeatManager.run_cons, HeartbeatManager.get?_run_quiet hq]
  simp only [HeartbeatManager.call, HeartbeatManager.register, Dict.get?_set_self, Option.map_some,
    HeartbeatMonitor.new, if_true, HeartbeatManager.run_liveness, HeartbeatManager.new,
    Option.some.injEq, exists_eq_left']
  omega

-- Only the operations on a peer count for it, and the ticks.
theorem get?_run_filter : (s.run ops).monitors.get? p =
    (s.run (ops.filter fun o => o.Concerns p ∨ o = .tickAll)).monitors.get? p := by
  suffices h : ∀ {s₁ s₂ : HeartbeatManager}, s₁.liveness = s₂.liveness →
      s₁.monitors.get? p = s₂.monitors.get? p → (s₁.run ops).monitors.get? p =
        (s₂.run (ops.filter fun o => o.Concerns p ∨ o = .tickAll)).monitors.get? p from h rfl rfl
  induction ops
  case nil => exact fun _ h => h
  case cons op ops hi =>
    intro s₁ s₂ hl h
    rw [List.filter_cons, HeartbeatManager.run_cons]
    by_cases ho : op.Concerns p ∨ op = .tickAll
    case pos =>
      rw [if_pos (decide_eq_true ho), HeartbeatManager.run_cons]
      exact hi (by simpa using hl) (HeartbeatManager.get?_call_congr hl h)
    case neg =>
      rw [if_neg (by simpa using ho)]
      rw [not_or] at ho
      exact hi (by simpa using hl) <| (HeartbeatManager.get?_call ho.left ho.right).trans h

theorem frame (p : String) (past : List Op) : p ∈ reported L past ↔
    p ∈ reported L (past.filter fun o => o.Concerns p ∨ o = .tickAll) := by
  rw [reported, reported, HeartbeatManager.mem_tickAll, HeartbeatManager.mem_tickAll, get?_run_filter]

theorem exists_prefix_ticks (h : n < ticks ops) :
    ∃ past rest, ops = past ++ .tickAll :: rest ∧ ticks past = n := by
  induction ops generalizing n
  case nil => cases h
  case cons op ops hi =>
    by_cases ht : op = .tickAll
    case neg =>
      rw [ticks, List.count_cons_of_ne ht] at h
      obtain ⟨past, rest, rfl, hn⟩ := hi h
      exact ⟨op :: past, rest, rfl, by rw [ticks, List.count_cons_of_ne ht]; exact hn⟩
    case pos =>
      subst ht
      rw [ticks, List.count_cons_self] at h
      cases n
      case zero => exact ⟨[], ops, rfl, rfl⟩
      case succ n =>
        obtain ⟨past, rest, rfl, hn⟩ := hi (n := n) (Nat.lt_of_succ_lt_succ h)
        exact ⟨.tickAll :: past, rest, rfl, by rw [ticks, List.count_cons_self]; exact congrArg _ hn⟩

-- Where there is a tick of that number, there are the ones before it.
theorem Ticks.le (t : Ticks ops p past op rest k) (h₀ : n ≠ 0) (h : n ≤ k) :
    ∃ rest', Ticks ops p past op rest' n := by
  obtain ⟨history, quiet, rfl⟩ := t
  by_cases hn : n = ticks rest + 1
  case pos => exact ⟨rest, history, quiet, hn⟩
  case neg =>
    obtain ⟨rest', more, rfl, ht⟩ := exists_prefix_ticks (show n - 1 < ticks rest by omega)
    refine ⟨rest', ?_, fun o ho => quiet o (List.mem_append_left _ ho), by omega⟩
    refine List.IsPrefix.trans ⟨more ++ [.tickAll], ?_⟩ history
    simp

-- The liveness is the engine's own, or no peer that was heard of goes so many ticks without an
-- operation on it that either number of them is reached.
def Heard (liveness : ℕ) (ops : List Op) : Prop :=
  liveness = heartbeatLiveness ∨ ∀ p past rest k, Ticks ops p past (.update p) rest k →
    Registered p past → k < min liveness heartbeatLiveness.toNat

theorem exact_iff_heard (liveness : ℕ) (h : 1 ≤ liveness) (ops : List Op) :
    Exact liveness ops ↔ Heard liveness ops := by
  constructor
  case mp =>
    intro e
    by_contra hn
    simp only [Heard, not_or, not_forall, Nat.not_lt] at hn
    obtain ⟨hl, p, past, rest, k, t, hr, hk⟩ := hn
    obtain ⟨rest, t⟩ := t.le (by simp [heartbeatLiveness]; omega) hk
    have hf := e.update _ _ _ _ t hr
    rw [FirstAt, mem_reported_update hr t.quiet, ← Nat.cast_succ, Nat.succ_eq_add_one, ← t.count] at hf
    simp only [heartbeatLiveness] at hf hl
    omega
  case mpr =>
    intro hh
    refine ⟨fun p past rest k t => ?_, fun p past rest k t hr => ?_, fun p past _ => frame p past⟩
    case refine_1 =>
      have := t.count
      rw [FirstAt, mem_reported_register t.quiet]
      omega
    case refine_2 =>
      have := t.count
      rw [FirstAt, mem_reported_update hr t.quiet]
      simp only [Heard, heartbeatLiveness] at hh ⊢
      rcases hh with hl | hh
      · omega
      · have := hh _ _ _ _ t hr
        omega

theorem exact_iff_heard_five :
    Exact 5 [.register "a", .update "a", .tickAll] ↔ Heard 5 [.register "a", .update "a", .tickAll] :=
  exact_iff_heard 5 (by decide) _

-- With a liveness of 5 the peer is given up at the third tick after its heartbeat.
theorem not_exact_five :
    ¬Exact 5 [.register "a", .update "a", .tickAll, .tickAll, .tickAll] := by
  intro e
  have t : Ticks [.register "a", .update "a", .tickAll, .tickAll, .tickAll] "a" [.register "a"]
      (.update "a") [.tickAll, .tickAll] 3 :=
    ⟨List.prefix_refl _, by decide, rfl⟩
  exact absurd ((e.update _ _ _ _ t (by decide)).left (by decide)) (by decide)

end Python.Heartbeat
