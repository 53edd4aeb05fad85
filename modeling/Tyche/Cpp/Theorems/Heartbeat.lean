import Tyche.Cpp.Heartbeat

namespace Cpp.Heartbeat

variable {s s' : HeartbeatManager} {b : Budgets} {m : String} {op : Op} {ops : List Op} {L n : ℕ}

-- A registration is of a module that is not known, or that still has what a new one gets, and that
-- is not too much for an `int`.
def Fresh (L : ℕ) (b : Budgets) : Op → Prop
  | .registerModule m => 2 * (L : ℤ) ≤ INT_MAX ∧ (b m = none ∨ b m = some (2 * L))
  | _                 => True

instance : ∀ op, Decidable (Fresh L b op)
  | .registerModule _ => inferInstanceAs <| Decidable (_ ∧ _)
  | .update _ | .tickAll | .unregister _ => inferInstanceAs <| Decidable True

def Budgets.Positive (b : Budgets) : Prop :=
  ∀ m n, b m = some n → 1 ≤ n

theorem Budgets.positive_empty : Positive .empty := by
  intro _ _ h
  cases h

theorem Budgets.Positive.call (hb : b.Positive) (hl : 1 ≤ L) : (b.call L op).Positive := by
  intro m n h
  have set {m' k} (hk : 1 ≤ k) (h : Function.update b m' (some k) m = some n) : 1 ≤ n := by
    rw [Function.update_apply] at h
    split at h
    · cases h; exact hk
    · exact hb m n h
  cases op
  case registerModule m' => exact set (by omega) h
  case update m' =>
    simp only [Budgets.call] at h
    split at h
    · exact hb m n h
    · exact set hl h
  case tickAll =>
    obtain ⟨k, hk, h⟩ := Option.bind_eq_some_iff.mp h
    split at h
    · cases h
    · cases h; omega
  case unregister m' =>
    simp only [Budgets.call, Function.update_apply] at h
    split at h
    · cases h
    · exact hb m n h

namespace HeartbeatManager

theorem Keeps.get? (k : s.Keeps b) (h : b m = some n) : ∃ h, s.monitors.get? m = some ⟨h⟩ ∧ h = n := by
  have := k m
  rw [h, Option.map_some, Option.map_eq_some_iff] at this
  obtain ⟨⟨l⟩, hm, hl⟩ := this
  exact ⟨l, hm, hl⟩

theorem Keeps.budget {l : ℤ} (k : s.Keeps b) (h : s.monitors.get? m = some ⟨l⟩) :
    ∃ n : ℕ, b m = some n ∧ l = n := by
  have := (k m).symm
  rw [h, Option.map_some, Option.map_eq_some_iff] at this
  obtain ⟨n, hn, hl⟩ := this
  exact ⟨n, hn, hl.symm⟩

theorem Keeps.mem_iff (k : s.Keeps b) : m ∈ s.monitors ↔ b m ≠ none := by
  have := k m
  rw [Dict.mem_iff, ← Option.ne_none_iff_exists']
  cases hm : s.monitors.get? m <;> cases hb : b m <;> simp_all

-- The monitor of one module is set, and the budget with it.
theorem Keeps.set (k : s.Keeps b) (l : ℕ) : Keeps { s with monitors := s.monitors.set m ⟨l⟩ }
    (Function.update b m (some l)) := by
  intro m'
  rw [Dict.get?_set, Function.update_apply]
  split
  case isTrue  => rfl
  case isFalse => exact k m'

theorem get?_foldl_erase {d : Dict String HeartbeatMonitor} {ms : List String} :
    (ms.foldl Dict.erase d).get? m = if m ∈ ms then none else d.get? m := by
  induction ms generalizing d
  case nil => simp
  case cons m' ms hi =>
    rw [List.foldl_cons, hi, Dict.get?_erase]
    by_cases h : m ∈ ms <;> by_cases h' : m = m' <;> simp [h, h']

theorem mem_tickAll : m ∈ s.tickAll.1 ↔ ∃ l, s.monitors.get? m = some ⟨l⟩ ∧ l ≤ 1 := by
  simp only [tickAll, List.mem_map, List.mem_filter, Prod.exists, ← Dict.get?_eq_some_iff,
    Dict.get?_mapVal, Option.map_eq_some_iff, HeartbeatMonitor.IsExpired]
  constructor
  case mp =>
    rintro ⟨_, _, ⟨⟨⟨l⟩, h, rfl⟩, he⟩, rfl⟩
    exact ⟨l, h, by simpa [HeartbeatMonitor.tick] using he⟩
  case mpr =>
    rintro ⟨l, h, he⟩
    exact ⟨m, _, ⟨⟨⟨l⟩, h, rfl⟩, by simpa [HeartbeatMonitor.tick] using he⟩, rfl⟩

theorem tickAll_nodup : s.tickAll.1.Nodup :=
  ((s.monitors.mapVal HeartbeatMonitor.tick).nodup).sublist <| List.filter_sublist.map _

theorem mem_tickAll_iff (k : s.Keeps b) (hb : b.Positive) : m ∈ s.tickAll.1 ↔ b m = some 1 := by
  rw [mem_tickAll]
  constructor
  case mp =>
    rintro ⟨l, h, hl⟩
    obtain ⟨n, hn, rfl⟩ := k.budget h
    have := hb m n hn
    rw [hn, show n = 1 by omega]
  case mpr =>
    intro h
    obtain ⟨l, hm, rfl⟩ := k.get? h
    exact ⟨_, hm, Int.le_refl _⟩

theorem Keeps.tickAll (k : s.Keeps b) (hb : b.Positive) : s.tickAll.2.Keeps (b.call L .tickAll) := by
  intro m
  have hm := mem_tickAll_iff (m := m) k hb
  simp only [HeartbeatManager.tickAll] at hm ⊢
  simp only [get?_foldl_erase, hm, Dict.get?_mapVal, Budgets.call]
  cases hn : b m
  case none =>
    have hg : s.monitors.get? m = none :=
      Dict.get?_eq_none_iff.mpr fun hm => k.mem_iff.mp hm hn
    simp [hg]
  case some n =>
    obtain ⟨l, hg, rfl⟩ := k.get? hn
    have := hb m n hn
    by_cases h : n = 1
    case pos => simp [h]
    case neg =>
      have hn : ¬n ≤ 1 := by omega
      simp [h, hn, hg, HeartbeatMonitor.tick]
      omega

theorem Keeps.update (k : s.Keeps b) (hs : s.liveness = L) :
    (s.update m).Keeps (b.call L (.update m)) := by
  rw [HeartbeatManager.update, Budgets.call]
  cases hg : s.monitors.get? m
  case none =>
    have hn : b m = none := by
      by_contra hn
      exact Dict.get?_eq_none_iff.mp hg <| k.mem_iff.mpr hn
    rwa [if_pos hn]
  case some monitor =>
    rw [if_neg <| k.mem_iff.mp <| Dict.mem_of_get? hg]
    simpa only [HeartbeatMonitor.update, hs] using k.set L

theorem Keeps.unregister (k : s.Keeps b) : (s.unregister m).Keeps (b.call L (.unregister m)) := by
  intro m'
  rw [HeartbeatManager.unregister, Dict.get?_erase]
  simp only [Budgets.call, Function.update_apply]
  split
  case isTrue  => rfl
  case isFalse => exact k m'

-- A module that registers again keeps the monitor that it has.
theorem registerModule_eq (hs : s.liveness = L) (hl : 2 * (L : ℤ) ≤ INT_MAX) : s.registerModule m =
    some (if m ∈ s.monitors then s
      else { s with monitors := s.monitors.set m ⟨s.liveness * 2⟩ }) := by
  rw [registerModule, hs, if_neg (by omega)]
  split <;> rfl

theorem Keeps.registerModule_iff (k : s.Keeps b) (hs : s.liveness = L) :
    (∃ s', s.registerModule m = some s' ∧ s'.Keeps (b.call L (.registerModule m))) ↔
      Fresh L b (.registerModule m) := by
  by_cases hl : 2 * (L : ℤ) ≤ INT_MAX
  case neg =>
    have hn : s.registerModule m = none := if_pos (by rw [hs]; omega)
    simp [Fresh, hl, hn]
  case pos =>
    rw [registerModule_eq hs hl]
    simp only [Option.some.injEq, exists_eq_left', Fresh, hl, true_and, Budgets.call, k.mem_iff]
    by_cases hn : b m = none
    case pos =>
      have hk := k.set (m := m) (2 * L)
      rw [Nat.cast_mul, Nat.cast_two, mul_comm, ← hs] at hk
      simpa [hn] using hk
    case neg =>
      rw [if_pos hn]
      simp only [hn, false_or]
      constructor
      case mp =>
        intro h
        have h₁ := k m
        rw [h m, Function.update_self] at h₁
        obtain ⟨n, hn⟩ := Option.ne_none_iff_exists'.mp hn
        rw [hn, Option.map_some, Option.map_some, Option.some.injEq] at h₁
        rw [hn, Nat.cast_injective h₁]
      case mpr =>
        intro h
        rwa [← h, Function.update_eq_self]

end HeartbeatManager

theorem registerModule_liveness (h : s.registerModule m = some s') : s'.liveness = s.liveness := by
  rw [HeartbeatManager.registerModule] at h
  split at h
  · cases h
  · split at h <;> cases h <;> rfl

theorem conforms_iff (k : s.Keeps b) (hs : s.liveness = L) (hb : b.Positive) (hl : 1 ≤ L) :
    Conforms L s b ops ↔ (Budgets.machine L).Along (Fresh L) b ops := by
  induction ops generalizing s b
  case nil => exact Iff.rfl
  case cons op ops hi =>
    have hi {s' : HeartbeatManager} (k' : s'.Keeps (b.call L op)) (hs' : s'.liveness = L) :=
      hi k' hs' (hb.call hl)
    have ha : (Budgets.machine L).Along (Fresh L) b (op :: ops) ↔
        Fresh L b op ∧ (Budgets.machine L).Along (Fresh L) (b.call L op) ops :=
      ⟨fun h => ⟨h.left, h.right _ rfl⟩, fun h => ⟨h.left, fun _ e => Option.some.inj e ▸ h.right⟩⟩
    rw [ha, Conforms]
    cases op
    case registerModule m =>
      rw [← k.registerModule_iff hs]
      constructor
      case mp =>
        rintro ⟨expired, s', hc, k', -, -, h⟩
        obtain ⟨s'', hr, e⟩ := Option.map_eq_some_iff.mp hc
        cases e
        exact ⟨⟨s', hr, k'⟩, (hi k' (registerModule_liveness hr ▸ hs)).mp h⟩
      case mpr =>
        rintro ⟨⟨s', hr, k'⟩, h⟩
        refine ⟨[], s', by rw [HeartbeatManager.call, hr]; rfl, k', .nil, by simp [Budgets.Reports], ?_⟩
        exact (hi k' (registerModule_liveness hr ▸ hs)).mpr h
    case update m =>
      have k' := k.update (m := m) hs
      have hl' : (s.update m).liveness = L := by rw [HeartbeatManager.update]; split <;> exact hs
      constructor
      case mp =>
        rintro ⟨expired, s', hc, -, -, -, h⟩
        cases hc
        exact ⟨trivial, (hi k' hl').mp h⟩
      case mpr =>
        rintro ⟨-, h⟩
        exact ⟨[], _, rfl, k', .nil, by simp [Budgets.Reports], (hi k' hl').mpr h⟩
    case tickAll =>
      have k' := k.tickAll (L := L) hb
      constructor
      case mp =>
        rintro ⟨expired, s', hc, -, -, -, h⟩
        cases hc
        exact ⟨trivial, (hi k' hs).mp h⟩
      case mpr =>
        rintro ⟨-, h⟩
        refine ⟨_, _, rfl, k', HeartbeatManager.tickAll_nodup, fun m => ?_, (hi k' hs).mpr h⟩
        exact (HeartbeatManager.mem_tickAll_iff k hb).trans (by simp [Budgets.Reports])
    case unregister m =>
      have k' := k.unregister (m := m) (L := L)
      constructor
      case mp =>
        rintro ⟨expired, s', hc, -, -, -, h⟩
        cases hc
        exact ⟨trivial, (hi k' hs).mp h⟩
      case mpr =>
        rintro ⟨-, h⟩
        exact ⟨[], _, rfl, k', .nil, by simp [Budgets.Reports], (hi k' hs).mpr h⟩

-- The manager keeps to the budgets exactly if each registration finds nothing to be renewed.
theorem conforms_iff_fresh (liveness : ℕ) (h : 1 ≤ liveness) (ops : List Op) :
    Conforms liveness (.new liveness) .empty ops ↔
      (Budgets.machine liveness).Along (Fresh liveness) .empty ops :=
  conforms_iff (fun _ => rfl) rfl Budgets.positive_empty h

theorem conforms_three :
    Conforms 3 (.new 3) .empty [.registerModule "a", .tickAll, .update "a", .tickAll] :=
  (conforms_iff_fresh 3 (by decide) _).mpr (by decide)

-- A module that has lost a tick and registers again does not get it back.
theorem not_conforms_again :
    ¬Conforms 3 (.new 3) .empty [.registerModule "a", .tickAll, .registerModule "a"] :=
  (conforms_iff (fun _ => rfl) rfl Budgets.positive_empty (by decide)).not.mpr (by decide)

end Cpp.Heartbeat
