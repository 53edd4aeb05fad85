import Tyche.Cpp.Theorems.Aging
import Tyche.Python.Theorems.Aging

-- In every run in which the monitor does not come in between, an iteration of the monitor removes
-- only topics that it should remove. It removes all of them exactly if there was an access to each
-- of them after its queue was made.
theorem collection_exact_iff (now : ℚ) (capacity : Option ℤ) (capacity' : BitVec 32) :
    (∀ as s s', Python.aging.aged.exec ⟨.start now capacity, fun _ => now⟩ as = some s →
      Python.aging.aged.Along (fun s a => s.state.Whole a) ⟨.start now capacity, fun _ => now⟩ as →
      s.state.Whole .collect → Python.aging.aged.step s .collect = some s' →
      (∀ t, Python.Ledger.Removed s s' t → Python.Ledger.Due s t) ∧
        ((∀ t, Python.Ledger.Removed s s' t ↔ Python.Ledger.Due s t) ↔
          ∀ t, Python.Ledger.Due s t → t ∈ s.state.events.topicLastAccess)) ∧
    ∀ bs s s', Cpp.aging.aged.exec ⟨.start now capacity', fun _ => now⟩ bs = some s →
      Cpp.aging.aged.Along (fun s a => s.state.Whole a) ⟨.start now capacity', fun _ => now⟩ bs →
      s.state.Whole .collect → Cpp.aging.aged.step s .collect = some s' →
      (∀ t, Cpp.Broadcast.Removed s s' t → Cpp.Broadcast.Due s t) ∧
        ((∀ t, Cpp.Broadcast.Removed s s' t ↔ Cpp.Broadcast.Due s t) ↔
          ∀ t, Cpp.Broadcast.Due s t → s.state.events.lastAccess.getD t 0 ≠ 0) :=
  ⟨fun _ _ _ e c hw h => Python.aging.collect_exact_iff e c hw h,
    fun _ _ _ e c hw h => Cpp.aging.collect_exact_iff e c hw h⟩

def Python.Sample.published : List Python.Ledger.Action :=
  [publication "a", publication "b", .tick 61]

def Cpp.Sample.published : List Cpp.Broadcast.Action :=
  [.event [utf8 "t", utf8 "a"], .tick 61]

-- A queue that messages were put into is removed.
theorem collection_exact_published :
    (∃ s ∈ Python.aging.aged.exec ⟨.start 1 none, fun _ => 1⟩ Python.Sample.published,
      ∃ s' ∈ Python.aging.aged.step s .collect, Python.Ledger.Due s (.str <| utf8 "t") ∧
        ∀ t, Python.Ledger.Removed s s' t ↔ Python.Ledger.Due s t) ∧
    ∃ s ∈ Cpp.aging.aged.exec ⟨.start 1 1000, fun _ => 1⟩ Cpp.Sample.published,
      ∃ s' ∈ Cpp.aging.aged.step s .collect, Cpp.Broadcast.Due s (utf8 "t") ∧
        ∀ t, Cpp.Broadcast.Removed s s' t ↔ Cpp.Broadcast.Due s t := by
  constructor
  case left =>
    have hr : ∃ s ∈ Python.aging.aged.exec ⟨.start 1 none, fun _ => 1⟩ Python.Sample.published,
        ∃ s' ∈ Python.aging.aged.step s .collect, s.state.Whole .collect ∧
          Python.Ledger.Due s (.str <| utf8 "t") ∧
          ∀ t ∈ s.state.events.topicQueues.keys, t ∈ s.state.events.topicLastAccess := by
      decide +kernel
    obtain ⟨s, e, s', h, hw, hd, hk⟩ := hr
    have hc := (collection_exact_iff 1 none 1000).left Python.Sample.published s s' e
      (by decide +kernel) hw h
    exact ⟨s, e, s', h, hd, hc.right.mpr fun t ht => hk t ht.mem⟩
  case right =>
    have hr : ∃ s ∈ Cpp.aging.aged.exec ⟨.start 1 1000, fun _ => 1⟩ Cpp.Sample.published,
        ∃ s' ∈ Cpp.aging.aged.step s .collect, s.state.Whole .collect ∧
          Cpp.Broadcast.Due s (utf8 "t") ∧
          ∀ t ∈ s.state.events.topicQueues.keys, s.state.events.lastAccess.getD t 0 ≠ 0 := by
      decide +kernel
    obtain ⟨s, e, s', h, hw, hd, hk⟩ := hr
    have hc := (collection_exact_iff 1 none 1000).right Cpp.Sample.published s s' e
      (by decide +kernel) hw h
    exact ⟨s, e, s', h, hd, hc.right.mpr fun t ht => hk t ht.mem⟩

def Python.Sample.unused : List Python.Ledger.Action :=
  [subscriber 1 (.int 2), .unregister (Sample.worker 1), .tick 61]

def Cpp.Sample.unused : List Cpp.Broadcast.Action :=
  [.register ⟨Sample.worker 1, [⟨.on, utf8 "t"⟩]⟩, .unregister (Sample.worker 1), .tick 61]

-- A queue that was made for a module, and not used since, stays.
theorem not_collection_exact :
    (¬∀ as s s', Python.aging.aged.exec ⟨.start 1 none, fun _ => 1⟩ as = some s →
      Python.aging.aged.Along (fun s a => s.state.Whole a) ⟨.start 1 none, fun _ => 1⟩ as →
      s.state.Whole .collect → Python.aging.aged.step s .collect = some s' →
      ∀ t, Python.Ledger.Removed s s' t ↔ Python.Ledger.Due s t) ∧
    ¬∀ as s s', Cpp.aging.aged.exec ⟨.start 1 1000, fun _ => 1⟩ as = some s →
      Cpp.aging.aged.Along (fun s a => s.state.Whole a) ⟨.start 1 1000, fun _ => 1⟩ as →
      s.state.Whole .collect → Cpp.aging.aged.step s .collect = some s' →
      ∀ t, Cpp.Broadcast.Removed s s' t ↔ Cpp.Broadcast.Due s t := by
  constructor
  case left =>
    intro hx
    have hr : ∃ s ∈ Python.aging.aged.exec ⟨.start 1 none, fun _ => 1⟩ Python.Sample.unused,
        ∃ s' ∈ Python.aging.aged.step s .collect, s.state.Whole .collect ∧
          Python.Ledger.Due s (.str <| utf8 "t") ∧
          .str (utf8 "t") ∈ s'.state.events.topicQueues := by
      decide +kernel
    obtain ⟨s, e, s', h, hw, hd, hk⟩ := hr
    exact ((hx Python.Sample.unused s s' e (by decide +kernel) hw h _).mpr hd).right hk
  case right =>
    intro hx
    have hr : ∃ s ∈ Cpp.aging.aged.exec ⟨.start 1 1000, fun _ => 1⟩ Cpp.Sample.unused,
        ∃ s' ∈ Cpp.aging.aged.step s .collect, s.state.Whole .collect ∧
          Cpp.Broadcast.Due s (utf8 "t") ∧ utf8 "t" ∈ s'.state.events.topicQueues := by
      decide +kernel
    obtain ⟨s, e, s', h, hw, hd, hk⟩ := hr
    exact ((hx Cpp.Sample.unused s s' e (by decide +kernel) hw h _).mpr hd).right hk
