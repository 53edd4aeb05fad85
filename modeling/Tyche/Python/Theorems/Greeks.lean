import Mathlib.Data.Option.Basic
import Tyche.Python.Greeks
import Tyche.Python.Theorems.OptionId

-- Two results that fail alike, or whose values are related.
inductive Except.Rel {ε α β : Type*} (r : α → β → Prop) : Except ε α → Except ε β → Prop
  | error (e : ε) : Rel r (.error e) (.error e)
  | ok {a : α} {b : β} (h : r a b) : Rel r (.ok a) (.ok b)

namespace Except.Rel

universe v w

variable {ε : Type w} {α β γ γ' : Type v} {r : α → β → Prop} {s : γ → γ' → Prop} {x : Except ε α}
  {y : Except ε β} {f : α → Except ε γ} {g : β → Except ε γ'}

theorem bind (h : Rel r x y) (hf : ∀ a b, r a b → Rel s (f a) (g b)) :
    Rel s (x >>= f) (y >>= g) := by
  cases h
  case error e => exact .error e
  case ok h    => exact hf _ _ h

theorem refl : Rel Eq x x := by
  cases x
  case error e => exact .error e
  case ok a    => exact .ok rfl

-- What both do with one result of the same step.
theorem bind_same {g : α → Except ε γ'} (hf : ∀ a, Rel s (f a) (g a)) :
    Rel s (x >>= f) (x >>= g) :=
  refl.bind fun a _ h => h ▸ hf a

theorem ite {c : Prop} [Decidable c] {x' : Except ε α} {y' : Except ε β} (h : Rel r x y)
    (h' : Rel r x' y') : Rel r (if c then x else x') (if c then y else y') := by
  by_cases hc : c
  case pos => rwa [if_pos hc, if_pos hc]
  case neg => rwa [if_neg hc, if_neg hc]

end Except.Rel

namespace Python.GreeksEngine

def coreKeys : List Bytes := [
  utf8 "instrument_id", utf8 "delta", utf8 "gamma", utf8 "vega", utf8 "theta", utf8 "rho"]

-- The same values under the keys that the payloads of both paths have.
def SameCore (q q' : Update) : Prop :=
  ∀ k ∈ coreKeys, ∃ v, q.lookup k = some v ∧ q'.lookup k = some v

abbrev Agree : Except Error (Option Update) → Except Error (Option Update) → Prop :=
  Except.Rel <| Option.Rel SameCore

variable {p : Pricing} {u : Unicode} {e : GreeksEngine} {timestamp timestamp' id : Bytes}
  {tick tick' payload : List (Key × Value)} {q q' : Update}

theorem agree_none : Agree (.ok none) (.ok none) :=
  .ok .none

-- The two computations only differ in what else they publish.
theorem simple_agree (h : get tick "last_price" (.float (.fin 0) 0) =
    get tick' "last_price" (.float (.fin 0) 0)) :
    Agree (e.computeAndPublishGreeksSimple p u timestamp id tick)
      (e.computeAndPublishGreeks p u timestamp' id tick') := by
  unfold computeAndPublishGreeksSimple computeAndPublishGreeks
  rw [h]
  cases e.underlyingMap.get? id
  case none              => exact .error _
  case some underlyingId =>
    dsimp only
    split
    case h_1 => exact agree_none
    case h_2 =>
      refine Except.Rel.bind_same fun invalid => .ite agree_none ?_
      split
      case h_1 =>
        refine .ite agree_none <| Except.Rel.bind_same fun iv => .ite agree_none ?_
        refine Except.Rel.bind_same fun g => .ok <| .some fun k hk => ?_
        simp only [coreKeys, List.mem_cons, List.not_mem_nil, or_false] at hk
        rcases hk with rfl | rfl | rfl | rfl | rfl | rfl <;> exact ⟨_, rfl, rfl⟩
      case h_2 => exact agree_none

theorem tickOf_lastPrice {v : Value} : get (tickOf v payload) "last_price" (.float (.fin 0) 0) =
    get payload "last_price" (.float (.fin 0) 0) :=
  rfl

-- The empty id is left out by the one path, and is the key of no option on the other.
theorem normalize_of_not_truthy {v : Value} {s : Bytes} (hv : v = instrumentId payload)
    (ht : v.truthy = false) (h : normalize v = .ok s) : s = [] := by
  subst hv
  cases hi : (get payload "instrument_id" .none).truthy
  case false =>
    rw [instrumentId, hi] at h
    cases h
    rfl
  case true  =>
    rw [instrumentId, hi, if_pos rfl, hi] at ht
    cases ht

-- The job path without its answer.
theorem handle_update : (e.handleComputeGreeks p u timestamp payload).map Prod.snd =
    (do
      let normalizedId ← normalize <| instrumentId payload
      if !e.resolved then return none
      else if normalizedId ∉ e.underlyingMap then return none
      else e.computeAndPublishGreeks p u timestamp normalizedId payload) := by
  unfold handleComputeGreeks
  generalize instrumentId payload = v
  cases hn : normalize v
  case error er        => dsimp only; rw [hn]; rfl
  case ok normalizedId =>
    dsimp only
    rw [hn]
    change Except.map Prod.snd (if _ then _ else if _ then _ else _) = if _ then _ else _
    rw [apply_ite (Except.map Prod.snd), apply_ite (Except.map Prod.snd)]
    cases e.computeAndPublishGreeks p u timestamp normalizedId payload <;> rfl

theorem paths_agree (p : Pricing) (u : Unicode) (timestamp timestamp' : Bytes)
    (payload : List (Key × Value)) (h : [] ∉ e.underlyingMap) :
    Agree (e.onComputeGreeks p u timestamp payload)
      ((e.handleComputeGreeks p u timestamp' payload).map Prod.snd) := by
  rw [handle_update, onComputeGreeks]
  generalize hv : instrumentId payload = v
  cases hn : normalize v
  case error er        => exact .error er
  case ok normalizedId =>
    change Agree (if _ then _ else if _ then _ else _) (if _ then _ else _)
    cases ht : v.truthy
    case true  =>
      rw [if_neg (by simp)]
      exact .ite agree_none <| .ite agree_none <| simple_agree tickOf_lastPrice
    case false =>
      cases normalize_of_not_truthy hv.symm ht hn
      rw [if_pos (show (!false) = true from rfl), if_pos h, ite_self]
      exact agree_none

theorem update_iff {x y : Except Error (Option Update)} (h : Agree x y) :
    (∃ q, x = .ok (some q)) ↔ ∃ q, y = .ok (some q) := by
  rcases h with _ | _ | _
  case error   => simp
  case ok.some => simp
  case ok.none => simp

theorem sameCore_of_update {x y : Except Error (Option Update)} (h : Agree x y)
    (hx : x = .ok (some q)) (hy : y = .ok (some q')) : SameCore q q' := by
  subst hx hy
  rcases h with _ | ⟨⟨h⟩⟩
  exact h

theorem handle_update_iff : (∃ a, e.handleComputeGreeks p u timestamp payload = .ok (a, some q)) ↔
    (e.handleComputeGreeks p u timestamp payload).map Prod.snd = .ok (some q) := by
  cases e.handleComputeGreeks p u timestamp payload
  case error er => simp [Except.map]
  case ok a     => simp [Except.map, Prod.ext_iff]

theorem published_alike (p : Pricing) (u : Unicode) (timestamp timestamp' : Bytes)
    (payload : List (Key × Value)) (h : [] ∉ e.underlyingMap) :
    ((∃ q, e.onComputeGreeks p u timestamp payload = .ok (some q)) ↔
      ∃ a q, e.handleComputeGreeks p u timestamp' payload = .ok (a, some q)) ∧
    ∀ q a q', e.onComputeGreeks p u timestamp payload = .ok (some q) →
      e.handleComputeGreeks p u timestamp' payload = .ok (a, some q') → SameCore q q' := by
  have ha := paths_agree p u timestamp timestamp' payload h
  constructor
  case left  => rw [update_iff ha, exists_comm, exists_congr fun _ => handle_update_iff]
  case right => exact fun q a q' hq hq' => sameCore_of_update ha hq <| handle_update_iff.mp ⟨a, hq'⟩

namespace Sample

def pricing : Pricing where
  impliedVol _ _ _ _ _ _ := .ok <| .fin (1 / 4)
  bsGreeks _ _ _ _ _ _   := .ok ⟨.fin 7, .fin (1 / 2), .fin 1, .fin 2, .fin (-3), .fin 4⟩

def engine : GreeksEngine where
  resolved         := true
  underlyingPrices := ⟨[(utf8 "ag2506", .int 6000)], by simp⟩
  underlyingMap    := ⟨[(utf8 "ag2506C6000", utf8 "ag2506")], by simp⟩
  expiryMap        := ⟨[(utf8 "ag2506C6000", utf8 "2025-05-26")], by simp⟩
  riskFreeRate     := .fin 0
  today            := Dates.ordinal 2024 5 26

def call : List (Key × Value) := [
  (.str <| utf8 "instrument_id", .str <| utf8 "ag2506-C-6000"),
  (.str <| utf8 "last_price",    .int 120)]

end Sample

theorem update_of_isSome {x : Except Error (Option Update)} (h : x.toOption.join.isSome) :
    ∃ q, x = .ok (some q) := by
  rcases x with _ | _ | q
  case error   => cases h
  case ok.none => cases h
  case ok.some => exact ⟨q, rfl⟩

theorem published_alike_dashed : ∃ a q q',
    Sample.engine.onComputeGreeks Sample.pricing OptionId.Sample.ascii (utf8 "2024-05-26T09:30:00")
      Sample.call = .ok (some q) ∧
    Sample.engine.handleComputeGreeks Sample.pricing OptionId.Sample.ascii
      (utf8 "2024-05-26T09:30:01") Sample.call = .ok (a, some q') ∧ SameCore q q' := by
  have h := published_alike Sample.pricing OptionId.Sample.ascii (utf8 "2024-05-26T09:30:00")
    (utf8 "2024-05-26T09:30:01") Sample.call (e := Sample.engine) (by decide)
  obtain ⟨q, hq⟩ := update_of_isSome (x := Sample.engine.onComputeGreeks Sample.pricing
    OptionId.Sample.ascii (utf8 "2024-05-26T09:30:00") Sample.call) (by decide +kernel)
  obtain ⟨a, q', hq'⟩ := h.left.mp ⟨q, hq⟩
  exact ⟨a, q, q', hq, hq', h.right q a q' hq hq'⟩

end Python.GreeksEngine
