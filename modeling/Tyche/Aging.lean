import Mathlib.Algebra.Group.Defs
import Tyche.Dict
import Tyche.Machine

-- Boxes under keys, which are numbered in the order in which they are made. A box is removed when
-- nobody needs it and nothing has been done with it for a while.
namespace Aging

variable {κ σ α τ : Type*}

-- A system whose operations make boxes and use them. Nothing is used by what does not complete.
structure System (σ α τ : Type*) extends Machine σ α where
  now  : σ → τ
  made : σ → ℕ
  used : σ → α → Option ℕ

-- The state of a system, and when anything was last done with each of its boxes.
structure Aged (σ τ : Type*) where
  state : σ
  last  : ℕ → τ

namespace System

variable {y : System σ α τ} {s s' : Aged σ τ} {a : α}

-- What an operation last does with a box is to make it or to use it.
def lastAfter (y : System σ α τ) (s : Aged σ τ) (a : α) (b : ℕ) : τ :=
  if y.made s.state ≤ b ∨ y.used s.state a = some b then y.now s.state else s.last b

def aged (y : System σ α τ) : Machine (Aged σ τ) α where
  step s a := (y.step s.state a).map (⟨·, y.lastAfter s a⟩)

theorem aged_step (e : y.aged.step s a = some s') :
    y.step s.state a = some s'.state ∧ s'.last = y.lastAfter s a := by
  obtain ⟨_, h, rfl⟩ := Option.map_eq_some_iff.mp e
  exact ⟨h, rfl⟩

theorem lastAfter_of_le {b : ℕ} (hb : y.made s.state ≤ b) : y.lastAfter s a b = y.now s.state :=
  if_pos <| .inl hb

theorem lastAfter_of_lt {b : ℕ} (hb : b < y.made s.state) : y.lastAfter s a b =
    if y.used s.state a = some b then y.now s.state else s.last b :=
  if_congr (or_iff_right <| Nat.not_le.mpr hb) rfl rfl

theorem lastAfter_of_none (hu : y.used s.state a = none) :
    ∀ b < y.made s.state, y.lastAfter s a b = s.last b :=
  fun _ hb => (lastAfter_of_lt hb).trans <| if_neg <| hu ▸ nofun

end System

variable [DecidableEq κ] {boxes boxes' : Dict κ ℕ} {made : ℕ} {seen seen' : κ → Option τ}
variable {last last' : ℕ → τ} {k : κ} {b : ℕ} {t now ttl : τ} {free : κ → Prop}

-- `seen` is when anything was last done with the box under a key, as far as this is known.
structure Tracked (boxes : Dict κ ℕ) (made : ℕ) (seen : κ → Option τ) (last : ℕ → τ) : Prop where
  below : ∀ k, ∀ b ∈ boxes.get? k, b < made
  inj   : ∀ k k', ∀ b ∈ boxes.get? k, b ∈ boxes.get? k' → k = k'
  seen  : ∀ k, ∀ t ∈ seen k, ∃ b ∈ boxes.get? k, last b = t

-- Nobody needs the box under the key, which has not been used for longer than it may be.
def Due [Sub τ] [LT τ] (boxes : Dict κ ℕ) (last : ℕ → τ) (free : κ → Prop) (ttl now : τ)
    (k : κ) : Prop :=
  free k ∧ ∃ b ∈ boxes.get? k, ttl < now - last b

instance [Sub τ] [LT τ] [DecidableLT τ] [DecidablePred free] :
    Decidable (Due boxes last free ttl now k) :=
  inferInstanceAs <| Decidable (_ ∧ ∃ _ ∈ _, _)

theorem Due.mem [Sub τ] [LT τ] (h : Due boxes last free ttl now k) : k ∈ boxes := by
  obtain ⟨-, b, hb, -⟩ := h
  exact Dict.mem_of_get? hb

-- A sweep removes the boxes of which it is known that they have not been used for too long.
def Sweeps [Sub τ] [LT τ] (boxes boxes' : Dict κ ℕ) (seen : κ → Option τ) (free : κ → Prop)
    (ttl now : τ) : Prop :=
  ∀ k, k ∈ boxes' ↔ k ∈ boxes ∧ ¬(free k ∧ ∃ t ∈ seen k, ttl < now - t)

theorem sweeps_filter [Sub τ] [LT τ] {p : κ → Prop} [DecidablePred p]
    (hp : ∀ k, p k ↔ free k ∧ ∃ t ∈ seen k, ttl < now - t) :
    Sweeps boxes ((boxes.keys.filter fun k => decide (p k)).foldl Dict.erase boxes) seen free ttl
      now := by
  intro k
  rw [Dict.mem_iff, Dict.get?_foldl_erase, ← hp, Dict.mem_iff]
  split
  case isTrue hm =>
    rw [List.mem_filter, decide_eq_true_eq] at hm
    exact iff_of_false (by simp) fun hk => hk.right hm.right
  case isFalse hm =>
    refine ⟨fun hk => ⟨hk, fun hd => hm ?_⟩, And.left⟩
    exact List.mem_filter.mpr ⟨Dict.mem_iff.mpr hk, decide_eq_true hd⟩

namespace Tracked

theorem empty : Tracked (∅ : Dict κ ℕ) made (fun _ => none) last where
  below _ _ h := absurd h <| Option.not_mem_none _
  inj _ _ _ h := absurd h <| Option.not_mem_none _
  seen _ _ h  := absurd h <| Option.not_mem_none _

theorem of_last (h : Tracked boxes made seen last) (hl : ∀ b < made, last' b = last b) :
    Tracked boxes made seen last' where
  below      := h.below
  inj        := h.inj
  seen k t m := by
    obtain ⟨b, hb, e⟩ := h.seen k t m
    exact ⟨b, hb, (hl b <| h.below k b hb).trans e⟩

theorem add (h : Tracked boxes made seen last) (hk : k ∉ boxes) :
    Tracked (boxes.set k made) (made + 1) seen last where
  below j b hb := by
    rw [Dict.get?_set] at hb
    split at hb
    case isTrue  => cases hb; exact Nat.lt_succ_self _
    case isFalse => exact Nat.lt_succ_of_lt <| h.below j b hb
  inj i j b hi hj := by
    rw [Dict.get?_set] at hi hj
    by_cases hik : i = k <;> by_cases hjk : j = k
    · exact hik.trans hjk.symm
    · rw [if_pos hik] at hi
      rw [if_neg hjk] at hj
      cases hi
      exact absurd (h.below j _ hj) (Nat.lt_irrefl _)
    · rw [if_neg hik] at hi
      rw [if_pos hjk] at hj
      cases hj
      exact absurd (h.below i _ hi) (Nat.lt_irrefl _)
    · rw [if_neg hik] at hi
      rw [if_neg hjk] at hj
      exact h.inj i j b hi hj
  seen j t m := by
    obtain ⟨b, hb, e⟩ := h.seen j t m
    have hj : j ≠ k := fun hj => hk <| hj ▸ Dict.mem_of_get? hb
    exact ⟨b, (Dict.get?_set_ne hj).trans hb, e⟩

-- What is done with a box is noted with the right time, or it is no longer known.
theorem use (h : Tracked boxes made seen last) (hb : boxes.get? k = some b)
    (hs : ∀ t ∈ seen' k, t = now) (hn : ∀ j, j ≠ k → seen' j = seen j) :
    Tracked boxes made seen' (Function.update last b now) where
  below := h.below
  inj   := h.inj
  seen j t m := by
    by_cases hj : j = k
    case pos =>
      subst hj
      exact ⟨b, hb, (Function.update_self ..).trans (hs t m).symm⟩
    case neg =>
      obtain ⟨b', hb', e⟩ := h.seen j t <| hn j hj ▸ m
      have hne : b' ≠ b := fun he => hj <| h.inj j k b (he ▸ hb') hb
      exact ⟨b', hb', (Function.update_of_ne hne ..).trans e⟩

-- What is known about a key goes with its box.
theorem erase {ks : List κ} (h : Tracked boxes made seen last)
    (hs : ∀ k, seen' k = if k ∈ ks then none else seen k) :
    Tracked (ks.foldl Dict.erase boxes) made seen' last where
  below k b hb := by
    rw [Dict.get?_foldl_erase] at hb
    split at hb
    case isTrue  => cases hb
    case isFalse => exact h.below k b hb
  inj k j b hk hj := by
    rw [Dict.get?_foldl_erase] at hk hj
    split at hk
    case isTrue  => cases hk
    case isFalse =>
      split at hj
      case isTrue  => cases hj
      case isFalse => exact h.inj k j b hk hj
  seen k t ht := by
    rw [hs] at ht
    split at ht
    case isTrue     => cases ht
    case isFalse hk =>
      obtain ⟨b, hb, e⟩ := h.seen k t ht
      exact ⟨b, Dict.get?_foldl_erase.trans <| (if_neg hk).trans hb, e⟩

variable [Sub τ] [LT τ]

theorem due_of_removed (h : Tracked boxes made seen last)
    (hc : Sweeps boxes boxes' seen free ttl now)
    (hk : k ∈ boxes ∧ k ∉ boxes') : Due boxes last free ttl now k := by
  rw [hc k, not_and_not_right] at hk
  obtain ⟨hf, t, ht, hl⟩ := hk.right hk.left
  obtain ⟨b, hb, rfl⟩ := h.seen k t ht
  exact ⟨hf, b, hb, hl⟩

-- Exactly the boxes that are due are removed if it is known of each of them when it was used.
theorem removed_iff_due (h : Tracked boxes made seen last)
    (hc : Sweeps boxes boxes' seen free ttl now) :
    (∀ k, k ∈ boxes ∧ k ∉ boxes' ↔ Due boxes last free ttl now k) ↔
      ∀ k, Due boxes last free ttl now k → (seen k).isSome := by
  constructor
  case mp =>
    intro he k hd
    have hk := (he k).mpr hd
    rw [hc k, not_and_not_right] at hk
    obtain ⟨-, t, ht, -⟩ := hk.right hk.left
    exact Option.isSome_iff_exists.mpr ⟨t, ht⟩
  case mpr =>
    intro hs k
    refine ⟨h.due_of_removed hc, fun hd => ?_⟩
    obtain ⟨t, ht⟩ := Option.isSome_iff_exists.mp <| hs k hd
    obtain ⟨hf, b, hb, hl⟩ := hd
    obtain ⟨b', hb', rfl⟩ := h.seen k t ht
    cases hb.symm.trans hb'
    rw [hc k, not_and_not_right]
    exact ⟨Dict.mem_of_get? hb, fun _ => ⟨hf, _, ht, hl⟩⟩

end Tracked

end Aging
