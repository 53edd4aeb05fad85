import Tyche.Cpp.Handlers

theorem List.ne_drop {α : Type*} {l : List α} {n : ℕ} (hn : 0 < n) (hl : n ≤ l.length) :
    l ≠ l.drop n := by
  intro h
  have := congrArg List.length h
  rw [List.length_drop] at this
  omega

namespace Cpp

variable {s s' : Bytes} {id : InternId} {t : StringIntern} {n : ℕ}

namespace StringIntern

-- At most `n` strings were given different ids, none of which is invalid.
structure Numbered (t : StringIntern) (n : ℕ) : Prop where
  next   : 0 < t.nextId.toNat ∧ t.nextId.toNat ≤ n + 1
  below  : ∀ s id, t.stringToId.get? s = some id → 0 < id.toNat ∧ id.toNat < t.nextId.toNat
  unique : ∀ s s' id, t.stringToId.get? s = some id → t.stringToId.get? s' = some id → s = s'

theorem numbered_start : start.Numbered 0 where
  next         := by decide
  below _ _ h  := by cases h
  unique _ _ _ h := by cases h

theorem Numbered.mono {m : ℕ} (h : t.Numbered n) (hm : n ≤ m) : t.Numbered m where
  next   := ⟨h.next.left, by have := h.next.right; omega⟩
  below  := h.below
  unique := h.unique

theorem get?_intern_self : (t.intern s).2.stringToId.get? s = some (t.intern s).1 := by
  unfold intern
  split
  case h_1 h => exact h
  case h_2   => exact Dict.get?_set_self

theorem get?_intern_ne (h : s' ≠ s) : (t.intern s).2.stringToId.get? s' = t.stringToId.get? s' := by
  unfold intern
  split
  case h_1 => rfl
  case h_2 => exact Dict.get?_set_ne h

-- A string has an id already, or it gets one that no other string has.
theorem Numbered.intern_cases (h : t.Numbered n) : t.stringToId.get? s = some (t.intern s).1 ∨
    t.stringToId.get? s = none ∧ ∀ s', t.stringToId.get? s' ≠ some (t.intern s).1 := by
  unfold intern
  split
  case h_1 hs => exact .inl hs
  case h_2 hs => exact .inr ⟨hs, fun s' hs' => (h.below s' _ hs').right.ne rfl⟩

theorem Numbered.intern (h : t.Numbered n) (hn : n + 2 < 2 ^ 32) :
    (t.intern s).2.Numbered (n + 1) := by
  unfold StringIntern.intern
  split
  case h_1    => exact h.mono <| Nat.le_succ n
  case h_2 hs =>
    have ⟨h₀, h₁⟩ := h.next
    have hx : (t.nextId + 1).toNat = t.nextId.toNat + 1 := by
      rw [BitVec.toNat_add]
      exact Nat.mod_eq_of_lt <| by simp; omega
    have hne (s' : Bytes) : t.stringToId.get? s' ≠ some t.nextId :=
      fun hs' => (h.below s' _ hs').right.ne rfl
    refine ⟨by simp only [hx]; omega, fun s' id hs' => ?_, fun s₁ s₂ id h₁ h₂ => ?_⟩
    case refine_1 =>
      simp only [Dict.get?_set, hx] at hs' ⊢
      split at hs'
      case isTrue  => cases hs'; omega
      case isFalse => have := h.below s' id hs'; omega
    case refine_2 =>
      simp only [Dict.get?_set] at h₁ h₂
      split at h₁ <;> split at h₂
      case isTrue.isTrue e₁ e₂   => exact e₁.trans e₂.symm
      case isTrue.isFalse        => cases h₁; exact absurd h₂ (hne s₂)
      case isFalse.isTrue        => cases h₂; exact absurd h₁ (hne s₁)
      case isFalse.isFalse       => exact h.unique s₁ s₂ id h₁ h₂

end StringIntern

namespace Handlers

variable {η : Type} {m : Module η} {rs : List (Registration η)} {r : Registration η} {name : Bytes}

-- The event handler that the registration is for, if it is one for events of the name.
def Registration.handler? (name : Bytes) : Registration η → Option (Option η × InterfacePattern)
  | .handler n h p _ => if bareName n = name then some (h, p) else none
  | _                => none

-- The event handler that was registered last under the name.
def last (rs : List (Registration η)) (name : Bytes) : Option (Option η × InterfacePattern) :=
  (rs.filterMap (·.handler? name)).getLast?

theorem last_concat : last (rs ++ [r]) name = (r.handler? name).or (last rs name) := by
  unfold last
  rw [List.filterMap_append]
  cases h : r.handler? name <;> simp [h]

-- The handlers are those of the last registrations under their names.
structure Module.Has (m : Module η) (rs : List (Registration η)) : Prop where
  numbered : m.intern.Numbered rs.length
  known    : ∀ id ∈ m.handlers, ∃ s, m.intern.stringToId.get? s = some id
  handlers : ∀ name, (m.intern.stringToId.get? name).bind m.handlers.get? = last rs name

namespace Module

theorem has_start : (start : Module η).Has [] where
  numbered    := StringIntern.numbered_start
  known _ h   := absurd h Dict.not_mem_empty
  handlers _  := rfl

-- A string that gets an id has no handler yet, unless it had the id before.
theorem Has.get?_intern (h : m.Has rs) :
    ((m.intern.intern s).2.stringToId.get? name).bind m.handlers.get? = last rs name := by
  rw [← h.handlers]
  by_cases hs : name = s
  case neg => rw [StringIntern.get?_intern_ne hs]
  case pos =>
    subst hs
    rw [StringIntern.get?_intern_self]
    obtain he | ⟨he, hf⟩ := h.numbered.intern_cases (s := name)
    case inl => rw [he]
    case inr =>
      have hm : (m.intern.intern name).1 ∉ m.handlers :=
        fun hm => (h.known _ hm).elim fun s hs => hf s hs
      rw [he, Option.bind_some, Option.bind_none, Dict.get?_eq_none_iff.mpr hm]

theorem Has.known_intern (h : m.Has rs) {id : InternId} (hi : id ∈ m.handlers) :
    ∃ s', (m.intern.intern s).2.stringToId.get? s' = some id := by
  obtain ⟨s', hs⟩ := h.known id hi
  refine ⟨s', ?_⟩
  by_cases he : s' = s
  case neg => rwa [StringIntern.get?_intern_ne he]
  case pos =>
    subst he
    rw [StringIntern.get?_intern_self]
    obtain hn | ⟨hn, -⟩ := h.numbered.intern_cases (s := s')
    case inl => exact hn.symm.trans hs
    case inr => cases hn.symm.trans hs

theorem Has.registerHandler {f : Option η} {p : InterfacePattern} {d : DurabilityLevel}
    (h : m.Has rs) (hn : rs.length + 2 < 2 ^ 32) :
    (m.registerHandler name f p d).Has (rs ++ [.handler name f p d]) where
  numbered := by
    rw [List.length_append]
    exact h.numbered.intern hn
  known id hi := by
    obtain rfl | hi := Dict.mem_set.mp hi
    case inl => exact ⟨_, StringIntern.get?_intern_self⟩
    case inr => exact h.known_intern hi
  handlers n := by
    have hu := (h.numbered.intern (s := bareName name) hn).unique
    have hs := StringIntern.get?_intern_self (s := bareName name) (t := m.intern)
    rw [last_concat, ← h.get?_intern (s := bareName name), Registration.handler?]
    change ((m.intern.intern <| bareName name).2.stringToId.get? n).bind
      (m.handlers.set (m.intern.intern <| bareName name).1 (f, p)).get? = _
    by_cases hb : bareName name = n
    case pos => rw [if_pos hb, ← hb, hs, Option.bind_some, Dict.get?_set_self, Option.some_or]
    case neg =>
      rw [if_neg hb, Option.none_or]
      cases hi : (m.intern.intern (bareName name)).2.stringToId.get? n
      case none    => rfl
      case some id => exact Dict.get?_set_ne fun he => hb <| hu _ _ id (he ▸ hs) hi

theorem Has.registerJobHandler {f : Option η} {d : DurabilityLevel} (h : m.Has rs)
    (hn : rs.length + 2 < 2 ^ 32) :
    (m.registerJobHandler name f d).Has (rs ++ [.jobHandler name f d]) where
  numbered := by
    rw [List.length_append]
    exact h.numbered.intern hn
  known id hi := h.known_intern hi
  handlers n := by
    rw [last_concat]
    exact h.get?_intern

theorem Has.registerProducer {p : InterfacePattern} {d : DurabilityLevel} (h : m.Has rs) :
    (m.registerProducer name p d).Has (rs ++ [.producer name p d]) where
  numbered := by
    rw [List.length_append]
    exact h.numbered.mono <| Nat.le_add_right ..
  known    := h.known
  handlers n := by
    rw [last_concat]
    exact h.handlers n

theorem Has.register (h : m.Has rs) (hn : rs.length + 2 < 2 ^ 32) :
    (m.register r).Has (rs ++ [r]) := by
  cases r
  case handler    => exact h.registerHandler hn
  case jobHandler => exact h.registerJobHandler hn
  case producer   => exact h.registerProducer

theorem has_registerAll (hn : rs.length + 1 < 2 ^ 32) : (registerAll rs).Has rs := by
  induction rs using List.reverseRecOn
  case nil              => exact has_start
  case append_singleton rs r hi =>
    rw [List.length_append, List.length_singleton] at hn
    rw [registerAll, List.foldl_append]
    exact (hi <| by omega).register hn

theorem Has.dispatch {topic : Bytes} (h : m.Has rs) : m.dispatch topic =
    (last rs <| if utf8 "on_" <+: topic then topic.drop 3 else topic).bind Prod.fst := by
  unfold Module.dispatch StringIntern.lookup
  generalize (if utf8 "on_" <+: topic then topic.drop 3 else topic) = name
  rw [← h.handlers]
  cases hi : m.intern.stringToId.get? name
  case none    => simp [invalidInternId]
  case some id =>
    have hz : id ≠ invalidInternId := by
      rintro rfl
      exact absurd (h.numbered.below _ _ hi).left <| by decide
    simp only [Option.getD_some, if_neg hz, Option.bind_some]
    cases m.handlers.get? id <;> rfl

end Module

-- An event handler that is the only one for events of the name is called for them, and no other.
def Reachable (η : Type) (t : Bytes) : Prop :=
  ∀ (rs₁ rs₂ : List (Registration η)) (name : Bytes) (handler : η) (d : DurabilityLevel),
    bareName name = t → (∀ r ∈ rs₁ ++ rs₂, r.handler? t = none) →
      (rs₁ ++ .handler name (some handler) .on d :: rs₂).length + 1 < 2 ^ 32 →
        (Module.registerAll <| rs₁ ++ .handler name (some handler) .on d :: rs₂).dispatch t = some handler

theorem last_single {rs₁ rs₂ : List (Registration η)} (h : ∀ r ∈ rs₁ ++ rs₂, r.handler? name = none) :
    last (rs₁ ++ r :: rs₂) name = r.handler? name := by
  have hn {rs : List (Registration η)} (h : ∀ r ∈ rs, r.handler? name = none) :
      rs.filterMap (·.handler? name) = [] := List.filterMap_eq_nil_iff.mpr h
  unfold last
  rw [List.filterMap_append, List.filterMap_cons, hn fun r hr => h r <| List.mem_append_left _ hr,
    hn fun r hr => h r <| List.mem_append_right _ hr]
  cases r.handler? name <;> rfl

theorem reachable_iff (handler : η) {t : Bytes} : Reachable η t ↔ ¬utf8 "on_" <+: t := by
  constructor
  case mp  =>
    intro h ht
    have hb : bareName (utf8 "on_" ++ t) = t := by
      rw [bareName, if_pos <| List.prefix_append ..]
      rfl
    have hd := h [] [] _ handler .asyncFlush hb (by simp) (by simp)
    have hn : t ≠ t.drop 3 := List.ne_drop (by decide) ht.length_le
    have hl : last [Registration.handler (utf8 "on_" ++ t) (some handler) .on .asyncFlush]
        (t.drop 3) = none := by
      rw [← List.nil_append [_], last_single (by simp), Registration.handler?, hb, if_neg hn]
    rw [List.nil_append, (Module.has_registerAll <| by simp).dispatch, if_pos ht, hl] at hd
    cases hd
  case mpr =>
    intro ht rs₁ rs₂ name f d hb hr hl
    rw [(Module.has_registerAll hl).dispatch, if_neg ht, last_single hr, Registration.handler?,
      if_pos hb]
    rfl

end Handlers

end Cpp
