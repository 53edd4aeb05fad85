import Tyche.Discipline
import Tyche.Publication
import Tyche.Python.StaticData

namespace Python

open Proc Threads

variable {α β : Type} {s s' : StaticData} {i j : RefreshThread} {works : Bool} {n : ℕ} {p : Place}
variable {c : Category}

namespace StaticData

def value (s : StaticData) : Place → ℕ
  | .file c => s.files c
  | .cache  => s.cache .markets

-- The refreshes publish the data of their fetches.
def publication (s : StaticData) : Publication RefreshThread Place where
  latest    := s.fetched
  value     := s.value
  version i := (s.refresh i).1
  left i    := (s.refresh i).2

-- A refresh of an older fetch has yet to write there.
def Awaits (s : StaticData) (n : ℕ) (p : Place) : Prop :=
  ∃ e ∈ s.refreshes.entries, p ∈ e.2.2 ∧ e.2.1 < n

instance : Decidable (s.Awaits n p) :=
  inferInstanceAs <| Decidable (∃ _ ∈ _, _)

theorem awaits_iff : s.Awaits n p ↔ ∃ i, p ∈ (s.refresh i).2 ∧ (s.refresh i).1 < n := by
  constructor
  case mp =>
    rintro ⟨⟨i, r⟩, hm, hp, hn⟩
    have hr : s.refresh i = r := by
      rw [refresh, Dict.getD, Dict.get?_eq_some_iff.mpr hm, Option.getD_some]
    exact ⟨i, hr ▸ hp, hr ▸ hn⟩
  case mpr =>
    rintro ⟨i, hp, hn⟩
    unfold refresh Dict.getD at hp hn
    cases hr : s.refreshes.get? i
    case none   => rw [hr] at hp; cases hp
    case some r => rw [hr] at hp hn; exact ⟨(i, r), Dict.get?_eq_some_iff.mp hr, hp, hn⟩

-- All files and the cache of all categories have the data of the same fetch.
def Consistent (s : StaticData) : Prop :=
  ∃ n, ∀ c, s.files c = n ∧ s.cache c = n

theorem refresh_setRefresh {r : ℕ × List Place} :
    (s.setRefresh i r).refresh j = if j = i then r else s.refresh j := by
  unfold setRefresh refresh Dict.getD
  rw [Dict.get?_set]
  split <;> rfl

end StaticData

open StaticData

theorem mem_places : ∀ p, p ∈ places := by
  intro p
  cases p
  case cache  => decide
  case file c => cases c <;> decide

theorem places_nodup : places.Nodup := by
  decide

-- The fetch that a thread is writing, and where it has yet to write it.
abbrev RefreshView :=
  ℕ × List Place

namespace RefreshView

def May (g : RefreshView) : ∀ {β : Type}, RefreshOp β → Prop
  | _, .isStopped        => g.2 = [] ∨ g.2 = places
  | _, .fetchAll         => g.2 = []
  | _, .save c data      => g.1 = data ∧ ∃ ps, g.2 = .file c :: ps
  | _, .updateCache data => g.1 = data ∧ g.2 = [.cache]
  | _, .setLastRefresh   => True

def returned (g : RefreshView) : ∀ {β : Type}, RefreshOp β → β → RefreshView
  | _, .isStopped, b      => if b then (0, []) else g
  | _, .fetchAll, data    => (data, places)
  | _, .save .., _        => (g.1, g.2.tail)
  | _, .updateCache .., _ => (g.1, g.2.tail)
  | _, .setLastRefresh, _ => g

-- Only a fetch fails, and then nothing is left to write.
def next (g : RefreshView) {β : Type} (o : RefreshOp β) : Except RefreshError β → RefreshView
  | .ok a    => returned g o a
  | .error _ => (g.1, [])

end RefreshView

-- The rules for the refreshes, under some condition and with some invariant.
def refreshing (C : Condition RefreshOp StaticData RefreshThread RefreshTask Bool)
    (P : StaticData → Prop) : Discipline refreshes RefreshView where
  May g o    := RefreshView.May g o
  next g o r := RefreshView.next g o r
  Inv s v    := (∀ i, v i = s.refresh i) ∧ (∀ c, s.cache c = s.cache .markets) ∧ P s
  cond       := C

variable {C C' : Condition RefreshOp StaticData RefreshThread RefreshTask Bool}
variable {P P' : StaticData → Prop} {g : RefreshView} {pr : PyRefresh α}
variable {Q : Except RefreshError α → RefreshView → Prop}

theorem obeys_refreshing (h : Obeys (refreshing C P) Q pr g) : Obeys (refreshing C' P') Q pr g := by
  induction pr generalizing g
  case done      => exact h
  case call _ hi => exact ⟨h.left, fun r => hi r (h.right r)⟩

-- Nothing is left to write.
def Written (_ : RefreshThread) (_ : Except RefreshError Unit) (g : RefreshView) : Prop :=
  g.2 = []

theorem obeys_saves {cs : List Category} {data : ℕ} {ps : List Place} :
    Obeys (refreshing C P)
      (fun r g => match r with
        | .ok _    => g = (data, ps)
        | .error _ => g.2 = [])
      (each (fun c => op <| .save c data) cs) (data, cs.map .file ++ ps) := by
  induction cs
  case nil          => exact rfl
  case cons c cs hi =>
    refine obeys_bind <| obeys_op (And.intro rfl ⟨_, rfl⟩) fun r => ?_
    cases r
    case ok    => exact hi
    case error => exact rfl

theorem obeys_doRefresh (hg : g.2 = []) : Obeys (refreshing C P) (Written i) doRefresh g := by
  refine obeys_bind <| obeys_op (.inl hg) fun r => ?_
  cases r
  case error => exact rfl
  case ok b  =>
    cases b
    case true  => exact rfl
    case false =>
      refine obeys_after <| obeys_bind <| obeys_op hg fun r => ?_
      cases r
      case error  => exact rfl
      case ok data =>
        refine obeys_bind <| obeys_op (.inr rfl) fun r => ?_
        cases r
        case error => exact rfl
        case ok b  =>
          cases b
          case true  => exact rfl
          case false =>
            refine obeys_bind <| obeys_saves.mono fun r g hr => ?_
            cases r
            case error => exact hr
            case ok    =>
              cases hr
              refine obeys_bind <| obeys_op (And.intro rfl rfl) fun r => ?_
              cases r
              case error => exact rfl
              case ok    =>
                refine obeys_op trivial fun r => ?_
                cases r <;> exact rfl

namespace StaticData

theorem refresh_written : (s.written i).refresh j =
    if j = i then ((s.refresh i).1, (s.refresh i).2.tail) else s.refresh j :=
  refresh_setRefresh

theorem publication_eq {a : Publication RefreshThread Place} (hl : s.fetched = a.latest)
    (hv : ∀ p, s.value p = a.value p) (hr : ∀ j, s.refresh j = (a.version j, a.left j)) :
    s.publication = a :=
  Publication.ext hl (funext hv) (funext fun j => congrArg Prod.fst (hr j))
    (funext fun j => congrArg Prod.snd (hr j))

theorem refresh_write (h : s'.refresh j = (s.written i).refresh j) :
    s'.refresh j = ((s.publication.write i p).version j, (s.publication.write i p).left j) := by
  rw [h, refresh_written]
  unfold Publication.write publication
  simp only [Function.update_apply]
  split
  case isTrue hj => rw [hj]
  case isFalse   => rfl

theorem publication_save (h : (s.refresh i).1 = n) :
    (s.save i c n).publication = s.publication.write i (.file c) := by
  refine publication_eq rfl (fun p => ?_) fun j => refresh_write rfl
  unfold Publication.write publication
  simp only [Function.update_apply, h]
  cases p
  case cache   => rfl
  case file c' => simp [value, save, Function.update_apply]

theorem publication_updateCache (h : (s.refresh i).1 = n) :
    (s.updateCache i n).publication = s.publication.write i .cache := by
  refine publication_eq rfl (fun p => ?_) fun j => refresh_write rfl
  unfold Publication.write publication
  simp only [Function.update_apply, h]
  cases p <;> rfl

theorem publication_fetch : (s.fetch i).publication = s.publication.take places i := by
  refine publication_eq rfl (fun p => by cases p <;> rfl) fun j => ?_
  have hr : (s.fetch i).refresh j = (s.setRefresh i (s.fetched + 1, places)).refresh j := rfl
  rw [hr, refresh_setRefresh]
  unfold Publication.take publication
  simp only [Function.update_apply]
  split <;> rfl

theorem publication_giveUp : (s.setRefresh i (0, [])).publication = s.publication.giveUp i := by
  refine publication_eq rfl (fun p => by cases p <;> rfl) fun j => ?_
  rw [refresh_setRefresh]
  unfold Publication.giveUp publication
  simp only [Function.update_apply]
  split <;> rfl

end StaticData

-- A condition on where the data of a fetch may be written, and on the tasks that are begun.
def writing (W : StaticData → ℕ → Place → Prop) (E : RefreshTask → Prop) :
    Condition RefreshOp StaticData RefreshThread RefreshTask Bool where
  enter _ k _     := E k
  exec _ _ _ o s :=
    match o with
    | .save c data      => W s data (.file c)
    | .updateCache data => W s data .cache
    | _                 => True

-- What is true of the refreshes stays true under the condition.
structure Preserved (W : StaticData → ℕ → Place → Prop) (E : RefreshTask → Prop)
    (P : StaticData → Prop) : Prop where
  quiet  : ∀ s s', P s → s'.publication = s.publication → s'.stopped = s.stopped → P s'
  take   : ∀ s s' i, P s → (s.refresh i).2 = [] →
    s'.publication = s.publication.take places i → s'.stopped = s.stopped → P s'
  giveUp : ∀ s s' i, P s → s.stopped → (s.refresh i).2 = [] ∨ (s.refresh i).2 = places →
    s'.publication = s.publication.giveUp i → P s'
  write  : ∀ s s' i p ps, P s → (s.refresh i).2 = p :: ps → W s (s.refresh i).1 p →
    s'.publication = s.publication.write i p → s'.stopped = s.stopped → P s'
  stop   : ∀ s s', E .stop → P s → s'.publication = s.publication → P s'

variable {W : StaticData → ℕ → Place → Prop} {E : RefreshTask → Prop}
variable {v : RefreshThread → RefreshView}

-- Only the thread of the step has a new view.
theorem agree_update (hv : ∀ j, v j = s.refresh j) (hi : s'.refresh i = g)
    (ho : ∀ j, j ≠ i → s'.refresh j = s.refresh j) :
    ∀ j, Function.update v i g j = s'.refresh j := by
  intro j
  by_cases hj : j = i
  case pos => rw [hj, Function.update_self, hi]
  case neg => rw [Function.update_of_ne hj, hv, ho j hj]

theorem agree_quiet (hv : ∀ j, v j = s.refresh j) (hr : s'.refreshes = s.refreshes) :
    ∀ j, Function.update v i (v i) j = s'.refresh j := by
  have hr (j : RefreshThread) : s'.refresh j = s.refresh j :=
    congrArg (fun d : Dict RefreshThread (ℕ × List Place) => d.getD j (0, [])) hr
  exact agree_update hv ((hr i).trans (hv i).symm) fun j _ => hr j

theorem agree_written (hv : ∀ j, v j = s.refresh j) (hr : s'.refreshes = (s.written i).refreshes) :
    ∀ j, Function.update v i ((v i).1, (v i).2.tail) j = s'.refresh j := by
  have hr (j : RefreshThread) : s'.refresh j = (s.written i).refresh j :=
    congrArg (fun d : Dict RefreshThread (ℕ × List Place) => d.getD j (0, [])) hr
  refine agree_update hv ?_ fun j hj => ?_
  · rw [hr, refresh_written, if_pos rfl, hv]
  · rw [hr, refresh_written, if_neg hj]

theorem Preserved.exec (h : Preserved W E P) {o : RefreshOp β} {r : Except RefreshError β}
    {k : Option RefreshTask} (hI : (refreshing (writing W E) P).Inv s v)
    (hm : RefreshView.May (v i) o) (hc : (writing W E).exec i k works o s)
    (e : StaticData.exec i works o s = (r, s')) :
    (refreshing (writing W E) P).Inv s' (Function.update v i <| RefreshView.next (v i) o r) := by
  obtain ⟨hv, hu, hp⟩ := hI
  cases o
  case isStopped =>
    unfold StaticData.exec at e
    cases e
    by_cases hs : s.stopped
    case pos =>
      rw [if_pos hs]
      have hg : RefreshView.next (v i) .isStopped (.ok s.stopped) = (0, []) := if_pos hs
      rw [hg]
      refine ⟨agree_update hv ?_ fun j hj => ?_, hu, h.giveUp s _ i hp hs ?_ publication_giveUp⟩
      · rw [refresh_setRefresh, if_pos rfl]
      · rw [refresh_setRefresh, if_neg hj]
      · exact hv i ▸ hm
    case neg =>
      rw [if_neg hs]
      have hg : RefreshView.next (v i) .isStopped (.ok s.stopped) = v i := if_neg hs
      rw [hg]
      exact ⟨agree_quiet hv rfl, hu, hp⟩
  case fetchAll =>
    cases works
    case true  =>
      cases e
      refine ⟨agree_update hv ?_ fun j hj => ?_, hu,
        h.take s _ i hp (hv i ▸ hm) publication_fetch rfl⟩
      · exact refresh_setRefresh.trans <| if_pos rfl
      · exact refresh_setRefresh.trans <| if_neg hj
    case false =>
      cases e
      have hg : RefreshView.next (v i) .fetchAll (.error .requestFailed) = v i :=
        Prod.ext rfl (hm : (v i).2 = []).symm
      rw [hg]
      exact ⟨agree_quiet hv rfl, hu, hp⟩
  case save c data =>
    cases e
    obtain ⟨hd, ps, hl⟩ := hm
    rw [hv] at hd hl
    exact ⟨agree_written hv rfl, hu, h.write s _ i _ ps hp hl (hd ▸ hc) (publication_save hd) rfl⟩
  case updateCache data =>
    cases e
    obtain ⟨hd, hl⟩ := hm
    rw [hv] at hd hl
    exact ⟨agree_written hv rfl, fun _ => rfl,
      h.write s _ i _ [] hp hl (hd ▸ hc) (publication_updateCache hd) rfl⟩
  case setLastRefresh =>
    cases e
    exact ⟨agree_quiet hv rfl, hu, h.quiet s _ hp rfl rfl⟩

theorem Preserved.enter (h : Preserved W E P) {k : RefreshTask} {pr : PyRefresh Unit}
    (hI : (refreshing (writing W E) P).Inv s v) (hg : (v i).2 = []) (hc : E k)
    (e : StaticData.enter i k s = some (s', pr)) :
    (refreshing (writing W E) P).Inv s' (Function.update v i (v i)) ∧
      Obeys (refreshing (writing W E) P) (Written i) pr (v i) := by
  obtain ⟨hv, hu, hp⟩ := hI
  unfold StaticData.enter at e
  split at e
  case h_1 | h_2 =>
    cases e
    exact ⟨⟨agree_quiet hv rfl, hu, hp⟩, obeys_doRefresh hg⟩
  case h_3 =>
    cases e
    exact ⟨⟨agree_quiet hv rfl, hu, h.stop s _ hc hp rfl⟩, hg⟩
  case h_4 =>
    split at e <;> cases e
    exact ⟨⟨agree_quiet hv rfl, hu, h.quiet s _ hp rfl rfl⟩, hg⟩
  case h_5 => cases e

theorem Preserved.kept (h : Preserved W E P) : (refreshing (writing W E) P).Kept Written where
  exec _ _ _ _ _ _ _ _ hI hm hc e := h.exec hI hm hc <| Option.some.inj e
  enter _ _ _ _ _ _ hI hg hc e    := ⟨_, h.enter hI hg hc e⟩

-- A refresh writes nothing that a refresh of an older fetch has yet to write.
def inOrder : Condition RefreshOp StaticData RefreshThread RefreshTask Bool :=
  writing (fun s n p => ¬s.Awaits n p) fun _ => True

def InOrder (s : StaticData) : Prop :=
  s.publication.Ordered places

theorem inOrder_preserved : Preserved (fun s n p => ¬s.Awaits n p) (fun _ => True) InOrder where
  quiet s s' h e _          := (congrArg (Publication.Ordered places) e).mpr h
  take s s' i h hl e _      := (congrArg (Publication.Ordered places) e).mpr <| h.take mem_places hl
  giveUp s s' i h _ hl e    := (congrArg (Publication.Ordered places) e).mpr <| h.giveUp mem_places hl
  write s s' i p ps h hl hw e _ := by
    refine (congrArg (Publication.Ordered places) e).mpr <| h.write places_nodup hl fun ho => hw ?_
    exact awaits_iff.mpr ho
  stop s s' _ h e           := (congrArg (Publication.Ordered places) e).mpr h

-- Nothing newer is replaced, and the module is not stopped.
def newer : Condition RefreshOp StaticData RefreshThread RefreshTask Bool :=
  writing (fun s n p => s.value p ≤ n) (· ≠ .stop)

def Overtaken (s : StaticData) : Prop :=
  s.publication.Overtaken ∧ s.stopped = false

theorem overtaken_preserved : Preserved (fun s n p => s.value p ≤ n) (· ≠ .stop) Overtaken where
  quiet s s' h e hs         := ⟨(congrArg Publication.Overtaken e).mpr h.left, hs.trans h.right⟩
  take s s' i h hl e hs     := ⟨(congrArg Publication.Overtaken e).mpr <| h.left.take hl,
    hs.trans h.right⟩
  giveUp s s' i h hs        := absurd hs <| by simp [h.right]
  write s s' i p ps h hl hw e hs := ⟨(congrArg Publication.Overtaken e).mpr <| h.left.write hl hw,
    hs.trans h.right⟩
  stop s s' hn              := absurd rfl hn

abbrev Refreshes :=
  Threads RefreshOp RefreshError StaticData RefreshThread RefreshTask

variable {t t' : Refreshes} {a : Action RefreshThread RefreshTask Bool}
variable {as : List (Action RefreshThread RefreshTask Bool)} {now : ℚ}

-- The step replaces no newer data by older data.
def Forward (t : Refreshes) (a : Action RefreshThread RefreshTask Bool) : Prop :=
  ∀ t', step refreshes t a = some t' → ∀ c, t.shared.files c ≤ t'.shared.files c ∧
    t.shared.cache c ≤ t'.shared.cache c

def Finished (t : Refreshes) : Prop :=
  ∀ i, ∃ r, t.code i = .done r

theorem left_of_finished (hf : Finished t) (hv : ∀ i, v i = t.shared.refresh i)
    (h : ∀ i, Obeys (refreshing C P) (Written i) (t.code i) (v i)) (i : RefreshThread) :
    t.shared.publication.left i = [] := by
  obtain ⟨r, hr⟩ := hf i
  have hw := h i
  rw [hr, hv] at hw
  exact hw

theorem consistent_of_finished (h : Disciplined (refreshing C InOrder) Written t)
    (hf : Finished t) : t.shared.Consistent := by
  obtain ⟨v, ⟨hv, hu, ho⟩, hc⟩ := h
  have hl := left_of_finished hf hv hc
  refine ⟨t.shared.value .cache, fun c => ⟨?_, hu c⟩⟩
  exact ho.value_eq (p := .file c) (q := .cache) hl

theorem step_start {k : RefreshTask} (e : step refreshes t (.start i k) = some t') :
    t'.shared.files = t.shared.files ∧ t'.shared.cache = t.shared.cache := by
  rw [step] at e
  split at e
  case h_2 => cases e
  case h_1 =>
    obtain ⟨⟨s, pr⟩, hs, rfl⟩ := Option.map_eq_some_iff.mp e
    have hs : StaticData.enter i k t.shared = some (s, pr) := hs
    unfold StaticData.enter at hs
    split at hs
    case h_1 | h_2 | h_3 => cases hs; exact ⟨rfl, rfl⟩
    case h_4             => split at hs <;> cases hs; exact ⟨rfl, rfl⟩
    case h_5             => cases hs

theorem step_next {x : Bool} (e : step refreshes t (.next i x) = some t') : ∃ β,
    ∃ (o : RefreshOp β) (next : Except RefreshError β → PyRefresh Unit), t.code i = .call o next ∧
      t' = ⟨(StaticData.exec i x o t.shared).2, t.task,
        Function.update t.code i (next (StaticData.exec i x o t.shared).1)⟩ := by
  rw [step] at e
  cases hd : t.code i
  case done        => rw [hd] at e; cases e
  case call o next =>
    rw [hd] at e
    obtain ⟨⟨r, s⟩, hs, rfl⟩ := Option.map_eq_some_iff.mp e
    have hs : StaticData.exec i x o t.shared = (r, s) := Option.some.inj hs
    exact ⟨_, o, next, rfl, by rw [hs]⟩

theorem forward_of_disciplined (h : Disciplined (refreshing C InOrder) Written t) :
    Forward t a := by
  obtain ⟨v, ⟨hv, hu, ho⟩, hc⟩ := h
  intro t' e c
  cases a
  case start i k =>
    obtain ⟨hf, hc⟩ := step_start e
    exact ⟨hf ▸ le_refl _, hc ▸ le_refl _⟩
  case next i x  =>
    obtain ⟨β, o, next, hd, rfl⟩ := step_next e
    have hk := hc i
    rw [hd, hv] at hk
    have hm : RefreshView.May (t.shared.refresh i) o := hk.left
    clear hk
    cases o
    case isStopped =>
      unfold StaticData.exec
      dsimp only
      split <;> exact ⟨le_refl _, le_refl _⟩
    case fetchAll  => cases x <;> exact ⟨le_refl _, le_refl _⟩
    case setLastRefresh => exact ⟨le_refl _, le_refl _⟩
    case save c' n =>
      obtain ⟨hn, ps, hl⟩ := hm
      refine ⟨?_, le_refl _⟩
      have hle : t.shared.publication.value (.file c) ≤
        (t.shared.publication.write i (.file c')).value (.file c) := ho.value_le_write hl
      rwa [← publication_save hn] at hle
    case updateCache n =>
      obtain ⟨hn, hl⟩ := hm
      refine ⟨le_refl _, ?_⟩
      have hle : t.shared.publication.value .cache ≤
        (t.shared.publication.write i .cache).value .cache := ho.value_le_write hl
      rw [← publication_updateCache hn] at hle
      rw [hu c]
      exact hle

theorem start_inOrder : Disciplined (refreshing C InOrder) Written (start (.start now)) := by
  have hp : (StaticData.start now).publication = Publication.start :=
    publication_eq rfl (fun p => by cases p <;> rfl) fun _ => rfl
  refine ⟨fun _ => (0, []), ⟨fun _ => rfl, fun _ => rfl, ?_⟩, fun _ => rfl⟩
  exact (congrArg (Publication.Ordered places) hp).mpr Publication.Ordered.start

theorem always_inOrder (h : Disciplined (refreshing inOrder InOrder) Written t)
    (c : (machine refreshes).Along (Meets inOrder) t as) :
    (machine refreshes).Always (Disciplined (refreshing inOrder InOrder) Written) t as :=
  always_disciplined inOrder_preserved.kept h c

-- The module is not stopped by the step.
def Runs (_ : Refreshes) : Action RefreshThread RefreshTask Bool → Prop
  | .start _ .stop => False
  | _              => True

theorem meets_newer (hf : Forward t a) (hr : Runs t a) (e : step refreshes t a = some t') :
    Meets newer t a := by
  cases a
  case start i k =>
    rintro rfl
    exact hr
  case next i x =>
    obtain ⟨β, o, next, hd, rfl⟩ := step_next e
    rw [Meets, hd]
    cases o
    case save c n =>
      have hle := (hf _ e c).left
      have hs : (Function.update t.shared.files c n) c = n := Function.update_self ..
      exact hle.trans_eq hs
    case updateCache n => exact (hf _ e .markets).right
    all_goals trivial

-- After a step that is out of order, some refresh is overtaken.
theorem overtaken_of_not_inOrder (h : Disciplined (refreshing inOrder InOrder) Written t)
    (hs : t.shared.stopped = false) (hn : ¬Meets inOrder t a) (e : step refreshes t a = some t') :
    Disciplined (refreshing newer Overtaken) Written t' := by
  obtain ⟨v, ⟨hv, hu, _⟩, hc⟩ := h
  have hi : ∀ i, Obeys (refreshing newer Overtaken) (Written i) (t.code i) (v i) :=
    fun i => obeys_refreshing (hc i)
  cases a
  case start => exact absurd trivial hn
  case next i x =>
    obtain ⟨β, o, next, hd, rfl⟩ := step_next e
    rw [Meets, hd] at hn
    have hk := hi i
    rw [hd] at hk
    have hm : RefreshView.May (v i) o := hk.left
    cases o
    case isStopped | fetchAll | setLastRefresh => exact absurd trivial hn
    case save c n =>
      obtain ⟨hg, ps, hl⟩ := hm
      refine Disciplined.update hi ⟨agree_written hv rfl, hu, ?_, hs⟩ (hk.right _)
      rw [hv] at hg
      refine (congrArg Publication.Overtaken <| publication_save hg).mpr ?_
      refine Publication.overtaken_of_overtakes ?_
      obtain ⟨j, hp, hlt⟩ := awaits_iff.mp <| not_not.mp hn
      exact ⟨j, hp, hlt.trans_eq hg.symm⟩
    case updateCache n =>
      obtain ⟨hg, hl⟩ := hm
      refine Disciplined.update hi ⟨agree_written hv rfl, fun _ => rfl, ?_, hs⟩ (hk.right _)
      rw [hv] at hg
      refine (congrArg Publication.Overtaken <| publication_updateCache hg).mpr ?_
      refine Publication.overtaken_of_overtakes ?_
      obtain ⟨j, hp, hlt⟩ := awaits_iff.mp <| not_not.mp hn
      exact ⟨j, hp, hlt.trans_eq hg.symm⟩

theorem overtaken_of_exec (h : Disciplined (refreshing newer Overtaken) Written t)
    (hf : (machine refreshes).Along Forward t as) (hr : (machine refreshes).Along Runs t as)
    (e : (machine refreshes).exec t as = some t') :
    Disciplined (refreshing newer Overtaken) Written t' := by
  induction as generalizing t
  case nil          => cases e; exact h
  case cons a as hi =>
    obtain ⟨t₁, e₁, e⟩ := Machine.exec_cons_eq_some_iff.mp e
    have hm : Meets newer t a := meets_newer hf.left hr.left e₁
    exact hi (h.step overtaken_preserved.kept hm e₁) (hf.right t₁ e₁) (hr.right t₁ e₁) e

theorem stopped_step (hr : Runs t a) (e : step refreshes t a = some t') :
    t'.shared.stopped = t.shared.stopped := by
  cases a
  case start i k =>
    rw [step] at e
    split at e
    case h_2 => cases e
    case h_1 =>
      obtain ⟨⟨s, pr⟩, hs, rfl⟩ := Option.map_eq_some_iff.mp e
      have hs : StaticData.enter i k t.shared = some (s, pr) := hs
      unfold StaticData.enter at hs
      split at hs
      case h_1 | h_2 => cases hs; rfl
      case h_3       => exact hr.elim
      case h_4       => split at hs <;> cases hs; rfl
      case h_5       => cases hs
  case next i x =>
    obtain ⟨β, o, next, hd, rfl⟩ := step_next e
    cases o
    case isStopped =>
      unfold StaticData.exec
      dsimp only
      split <;> rfl
    case fetchAll => cases x <;> rfl
    all_goals rfl

theorem along_inOrder (h : Disciplined (refreshing inOrder InOrder) Written t)
    (hs : t.shared.stopped = false) (hf : (machine refreshes).Along Forward t as)
    (hr : (machine refreshes).Along Runs t as) (e : (machine refreshes).exec t as = some t')
    (hd : Finished t') : (machine refreshes).Along (Meets inOrder) t as := by
  induction as generalizing t
  case nil          => trivial
  case cons a as hi =>
    obtain ⟨t₁, e₁, e⟩ := Machine.exec_cons_eq_some_iff.mp e
    have hm : Meets inOrder t a := by
      by_contra hn
      have ho := overtaken_of_not_inOrder h hs hn e₁
      obtain ⟨v, ⟨hv, _, hp⟩, hc⟩ :=
        overtaken_of_exec ho (hf.right t₁ e₁) (hr.right t₁ e₁) e
      exact Publication.not_overtaken (left_of_finished hd hv hc) hp.left
    refine ⟨hm, fun t₂ e₂ => ?_⟩
    cases e₁.symm.trans e₂
    exact hi (h.step inOrder_preserved.kept hm e₁) ((stopped_step hr.left e₁).trans hs)
      (hf.right t₁ e₁) (hr.right t₁ e₁) e

-- As long as no refresh overtakes another one, nothing newer is replaced, and the files and the
-- cache agree when all refreshes have finished. A run that ends with all of them finished and that
-- is not stopped does so only in this case.
theorem refreshes_in_order :
    ((machine refreshes).Along (Meets inOrder) (start (.start now)) as →
      (machine refreshes).Along Forward (start (.start now)) as ∧
      (machine refreshes).Always (fun t => Finished t → t.shared.Consistent)
        (start (.start now)) as) ∧
    ∀ t, (machine refreshes).exec (start (.start now)) as = some t → Finished t →
      (machine refreshes).Along Runs (start (.start now)) as →
      (machine refreshes).Along Forward (start (.start now)) as →
      (machine refreshes).Along (Meets inOrder) (start (.start now)) as := by
  refine ⟨fun hc => ?_, fun t e hd hr hf => along_inOrder start_inOrder rfl hf hr e hd⟩
  have h := always_inOrder start_inOrder hc
  exact ⟨h.along hc fun _ _ h _ => forward_of_disciplined h,
    h.mono fun _ h hf => consistent_of_finished h hf⟩

namespace Sample

def refreshSteps (i : RefreshThread) (n : ℕ) : List (Action RefreshThread RefreshTask Bool) :=
  .replicate n <| .next i true

-- A requested refresh begins before the periodic one is done, and writes after it.
def twoRefreshes : List (Action RefreshThread RefreshTask Bool) :=
  .start .worker .refresh :: refreshSteps .worker 3 ++
  .start (.requested 0) .refresh :: refreshSteps (.requested 0) 2 ++
  refreshSteps .worker 7 ++ refreshSteps (.requested 0) 8

theorem twoRefreshes_finish :
    ∃ t, (machine refreshes).exec (start (.start 0)) twoRefreshes = some t ∧ Finished t := by
  refine ⟨_, rfl, fun i => ?_⟩
  cases i
  case requested n => cases n <;> exact ⟨_, rfl⟩
  all_goals exact ⟨_, rfl⟩

end Sample

instance : Decidable (Meets inOrder t a) :=
  have : ∀ i k s, Decidable (inOrder.enter i k s) := fun _ _ _ => .isTrue trivial
  have : ∀ {β} i k x (o : RefreshOp β) s, Decidable (inOrder.exec i k x o s) := fun _ _ _ o s =>
    match o with
    | .save c data      => inferInstanceAs <| Decidable (¬s.Awaits data (.file c))
    | .updateCache data => inferInstanceAs <| Decidable (¬s.Awaits data .cache)
    | .isStopped        => .isTrue trivial
    | .fetchAll         => .isTrue trivial
    | .setLastRefresh   => .isTrue trivial
  inferInstance

instance : ∀ a, Decidable (Runs t a)
  | .start _ .stop     => .isFalse id
  | .start _ .refresh  => .isTrue trivial
  | .start _ (.tick _) => .isTrue trivial
  | .next ..           => .isTrue trivial

theorem refreshes_in_order_sample :
    (machine refreshes).Along Forward (start (.start 0)) Sample.twoRefreshes ∧
    (machine refreshes).Along (Meets inOrder) (start (.start 0)) Sample.twoRefreshes := by
  obtain ⟨t, e, hd⟩ := Sample.twoRefreshes_finish
  have hf : (machine refreshes).Along Forward (start (.start 0)) Sample.twoRefreshes :=
    (refreshes_in_order.left <| by decide +kernel).left
  exact ⟨hf, refreshes_in_order.right t e hd (by decide +kernel) hf⟩

-- Here the requested one is the first to write its data.
theorem not_refreshes_in_order : ¬∀ now as,
    (machine refreshes).Along Forward (start (.start now)) as ∧
    (machine refreshes).Always (fun t => Finished t → t.shared.Consistent)
      (start (.start now)) as := by
  intro ha
  have h : ∃ t ∈ (machine refreshes).exec (start (.start 0)) (
      .start .worker .refresh :: Sample.refreshSteps .worker 8 ++
      .start (.requested 0) .refresh :: Sample.refreshSteps (.requested 0) 10),
      ∃ t' ∈ step refreshes t (.next .worker true),
        t'.shared.cache .markets < t.shared.cache .markets := by
    decide +kernel
  obtain ⟨t, e, t', e', hl⟩ := h
  have hf := (ha 0 (_ ++ [.next .worker true])).left.exec e
  exact hl.not_ge (hf.left t' e' .markets).right

end Python
