import Mathlib.Data.List.Chain
import Tyche.Cpp.QuoteValidator

namespace Cpp

-- The time of day in milliseconds, for ticks whose time can be read and has no negative parts.
def QuoteTick.timeOfDay (tick : QuoteTick ℚ) : Option ℤ := do
  let (hour, minute, second) ← Scan.time tick.updateTime.text
  let ms := tick.updateMillisec.toInt
  if 0 ≤ hour ∧ 0 ≤ minute ∧ 0 ≤ second ∧ 0 ≤ ms then
    return hour * 3600000 + minute * 60000 + second * 1000 + ms
  else
    none

namespace Scan

variable {s t : Bytes} {n hour minute second : ℤ}

theorem read_lt (h : ∀ c ∈ s, Digits.IsDigit c) : Digits.read s < 10 ^ s.length := by
  induction s using List.reverseRecOn
  case nil              => decide
  case append_singleton s c hi =>
    have hc := h c <| List.mem_append_right s <| List.mem_singleton_self c
    have hs := hi fun d hd => h d <| List.mem_append_left _ hd
    have h1 : Digits.read [c] < 10 := by
      have := UInt8.le_iff_toNat_le.mp hc.right
      simp only [Digits.read, List.foldl_cons, List.foldl_nil]
      change c.toNat ≤ 57 at this
      omega
    rw [Digits.read_append, List.length_append, List.length_singleton, pow_succ]
    omega

theorem length_sign_le (s : Bytes) : (sign s).2.length ≤ s.length := by
  unfold sign
  split
  case h_3 => exact Nat.le_refl _
  all_goals exact Nat.le_succ _

-- A number that is read is as short as the text.
theorem int_le (h : int s = some (n, t)) : n < 10 ^ s.length ∧ t.length ≤ s.length := by
  unfold int at h
  have hs : (sign (s.dropWhile IsSpace)).2.length ≤ s.length := by
    refine (length_sign_le _).trans ?_
    exact (List.dropWhile_sublist _).length_le
  set u := (sign (s.dropWhile IsSpace)).2
  dsimp only at h
  split at h
  case isTrue  => cases h
  case isFalse =>
    obtain ⟨rfl, rfl⟩ := Prod.mk.inj <| Option.some.inj h
    have hd : ∀ c ∈ u.takeWhile Digits.IsDigit, Digits.IsDigit c :=
      fun c hc => by simpa using List.mem_takeWhile_imp hc
    have hl : (u.takeWhile Digits.IsDigit).length ≤ s.length :=
      (List.takeWhile_sublist _).length_le.trans hs
    have hr := (read_lt hd).trans_le <| Nat.pow_le_pow_right (by decide) hl
    refine ⟨?_, (List.dropWhile_sublist _).length_le.trans hs⟩
    split
    case isTrue  => exact (neg_nonpos.mpr <| Int.natCast_nonneg _).trans_lt <| by positivity
    case isFalse => exact_mod_cast hr

theorem colon_le (h : colon s = some t) : t.length ≤ s.length := by
  unfold colon at h
  split at h
  case h_1 =>
    cases h
    exact Nat.le_succ _
  case h_2 => cases h

theorem time_lt (h : time s = some (hour, minute, second)) :
    hour < 10 ^ s.length ∧ minute < 10 ^ s.length ∧ second < 10 ^ s.length := by
  simp only [time, Option.bind_eq_bind, Option.bind_eq_some_iff, Prod.exists] at h
  obtain ⟨_, s₁, h₁, s₂, h₂, _, s₃, h₃, s₄, h₄, _, _, h₅, he⟩ := h
  cases he
  have hl₁ := int_le h₁
  have hl₂ := colon_le h₂
  have hl₃ := int_le h₃
  have hl₄ := colon_le h₄
  have hl₅ := int_le h₅
  have hp {k : ℕ} (hk : k ≤ s.length) : (10 : ℤ) ^ k ≤ 10 ^ s.length :=
    pow_le_pow_right₀ (by decide) hk
  exact ⟨hl₁.left, hl₃.left.trans_le <| hp <| by omega, hl₅.left.trans_le <| hp <| by omega⟩

end Scan

namespace QuoteValidator

variable {ticks l mid l' : List (QuoteTick ℚ)} {a b current prev : QuoteTick ℚ} {x y : ℤ}

-- Each tick is accepted against the one before it.
def Accepted (ticks : List (QuoteTick ℚ)) : Prop :=
  ticks.IsChain fun prev current => validate current (some prev) = true

def SameDay (ticks : List (QuoteTick ℚ)) : Prop :=
  ∃ day ≠ [], ∀ tick ∈ ticks, tick.tradingDay.text = day

-- What it means that a tick is accepted on the same day after one with a price.
theorem validate_eq_true (h : validate current (some prev) = true) (hp : prev.lastPrice ≠ 0)
    (hd : current.tradingDay.text = prev.tradingDay.text) :
    prev.volume.toInt ≤ current.volume.toInt ∧ isTimestampRegression current prev = false := by
  have hc : crossDay current prev = false := by
    rw [crossDay, hd]
    simp
  rw [validate, if_neg hp, hc] at h
  simp only [Bool.false_eq_true, if_false] at h
  split at h
  case isTrue  => cases h
  case isFalse =>
    split at h
    case isTrue     => cases h
    case isFalse hr =>
      split at h
      case isTrue     => cases h
      case isFalse hv =>
        rw [BitVec.slt_iff_toInt_lt] at hv
        exact ⟨not_lt.mp hv, Bool.eq_false_of_not_eq_true hr⟩

theorem milliseconds_eq {hour minute second : ℤ} {ms : BitVec 32} :
    milliseconds (hour, minute, second) ms =
      .ofInt 64 (hour * 3600000 + minute * 60000 + second * 1000 + ms.toInt) := by
  simp only [BitVec.ofInt_add, BitVec.ofInt_mul]
  rfl

-- The validator counts the milliseconds right.
theorem exists_milliseconds (h : a.timeOfDay = some x) : ∃ time,
    Scan.time a.updateTime.text = some time ∧ (milliseconds time a.updateMillisec).toNat = x := by
  simp only [QuoteTick.timeOfDay, Option.bind_eq_bind, Option.bind_eq_some_iff, Prod.exists] at h
  obtain ⟨hour, minute, second, ht, h⟩ := h
  refine ⟨_, ht, ?_⟩
  split at h
  case isFalse   => cases h
  case isTrue hn =>
    cases h
    have hp : (10 : ℤ) ^ a.updateTime.text.length ≤ 10 ^ 9 :=
      pow_le_pow_right₀ (by decide) CharArray.length_text_le
    have hl := Scan.time_lt ht
    have hm : a.updateMillisec.toInt < 2 ^ 31 := BitVec.toInt_lt
    rw [milliseconds_eq, BitVec.toNat_ofInt, Int.emod_eq_of_lt (by omega) (by omega)]
    omega

theorem timeOfDay_le (hx : prev.timeOfDay = some x) (hy : current.timeOfDay = some y)
    (hd : current.tradingDay.text = prev.tradingDay.text)
    (hr : isTimestampRegression current prev = false) : x ≤ y := by
  have hc : crossDay current prev = false := by
    rw [crossDay, hd]
    simp
  obtain ⟨pre, hp, rfl⟩ := exists_milliseconds hx
  obtain ⟨cur, hc', rfl⟩ := exists_milliseconds hy
  rw [isTimestampRegression, hc, hp, hc'] at hr
  simpa [BitVec.lt_def] using hr

-- What one step gives holds over several of them.
theorem chain_monotone (hc : (a :: mid ++ [b]).IsChain fun prev cur => validate cur (some prev))
    (hd : ∀ tick ∈ mid ++ [b], tick.tradingDay.text = a.tradingDay.text)
    (hp : ∀ tick ∈ a :: mid, tick.lastPrice ≠ 0) :
    a.volume.toInt ≤ b.volume.toInt ∧ ∀ x y, a.timeOfDay = some x → b.timeOfDay = some y →
      (∀ tick ∈ mid, tick.timeOfDay ≠ none) → x ≤ y := by
  induction mid generalizing a
  case nil            =>
    obtain ⟨hv, hr⟩ := validate_eq_true hc.rel (hp a <| .head _) (hd b <| .head _)
    exact ⟨hv, fun x y hx hy _ => timeOfDay_le hx hy (hd b <| .head _) hr⟩
  case cons c mid hi =>
    have hca := hd c <| .head _
    obtain ⟨hv, hr⟩ := validate_eq_true hc.rel (hp a <| .head _) hca
    obtain ⟨hv', ht'⟩ := hi hc.tail (fun t ht => (hd t <| .tail _ ht).trans hca.symm)
      fun t ht => hp t <| .tail _ ht
    refine ⟨hv.trans hv', fun x y hx hy hn => ?_⟩
    obtain ⟨z, hz⟩ := Option.ne_none_iff_exists'.mp <| hn c <| .head _
    have hxz := timeOfDay_le hx hz hca hr
    exact hxz.trans <| ht' z y hz hy fun t ht => hn t <| .tail _ ht

-- In a stream of ticks, the volume does not go down from one tick to a later one if no tick before
-- that one has the price zero, nor does the time of day if the ticks between them have one, too.
theorem accepted_monotone (hs : SameDay ticks) (ha : Accepted ticks)
    (he : ticks = l ++ (a :: mid ++ [b]) ++ l') (hp : ∀ tick ∈ a :: mid, tick.lastPrice ≠ 0) :
    a.volume.toInt ≤ b.volume.toInt ∧ ∀ x y, a.timeOfDay = some x → b.timeOfDay = some y →
      (∀ tick ∈ mid, tick.timeOfDay ≠ none) → x ≤ y := by
  have hi : a :: mid ++ [b] <:+: ticks := ⟨l, l', he.symm⟩
  obtain ⟨day, -, hd⟩ := hs
  have hc := List.IsChain.infix ha hi
  refine chain_monotone hc (fun t ht => ?_) hp
  rw [hd t <| hi.subset <| .tail _ ht, hd a <| hi.subset <| .head _]

namespace Sample

def tick (lastPrice : ℚ) (volume : BitVec 32) (updateTime : String) : QuoteTick ℚ where
  instrumentId    := .zero 32
  lastPrice       := lastPrice
  bidPrice1       := 0
  askPrice1       := 0
  bidVolume1      := 0
  askVolume1      := 0
  openInterest    := 0
  turnover        := 0
  upperLimitPrice := 0
  lowerLimitPrice := 0
  openPrice       := 0
  highPrice       := 0
  lowPrice        := 0
  preSettlePrice  := 0
  updateTime      := (CharArray.zero 9).strncpy (utf8 updateTime) 8 (Nat.le_succ 8)
  exchangeId      := .zero 9
  tradingDay      := (CharArray.zero 9).strncpy (utf8 "20250115") 8 (Nat.le_succ 8)
  volume          := volume
  updateMillisec  := 0
  receiveTsNs     := 0

end Sample

theorem sameDay_sample {ticks : List (QuoteTick ℚ)}
    (h : ∀ t ∈ ticks, ∃ p v u, t = Sample.tick p v u) : SameDay ticks := by
  refine ⟨utf8 "20250115", by decide, fun t ht => ?_⟩
  obtain ⟨p, v, u, rfl⟩ := h t ht
  rfl

namespace Sample

def first : QuoteTick ℚ :=
  tick 5000 100 "09:00:00"

def second : QuoteTick ℚ :=
  tick 5100 200 "09:00:01"

-- A tick without a price.
def blank : QuoteTick ℚ :=
  tick 0 200 "09:00:01"

def last : QuoteTick ℚ :=
  tick 5000 50 "09:00:00"

end Sample

theorem accepted_monotone_sample :
    Sample.first.volume.toInt ≤ Sample.second.volume.toInt ∧
      ∀ x y, Sample.first.timeOfDay = some x → Sample.second.timeOfDay = some y →
        (∀ tick ∈ ([] : List (QuoteTick ℚ)), tick.timeOfDay ≠ none) → x ≤ y :=
  have hs : SameDay [Sample.first, Sample.second] :=
    sameDay_sample <| by simp [Sample.first, Sample.second]
  have he : [Sample.first, Sample.second] =
      [] ++ (Sample.first :: [] ++ [Sample.second]) ++ [] := rfl
  accepted_monotone hs (by simp [Accepted]; decide) he (by simp; decide)

-- After a tick without a price, anything is accepted.
theorem not_accepted_monotone : ¬∀ ticks l mid l' a b, SameDay ticks → Accepted ticks →
    ticks = l ++ (a :: mid ++ [b]) ++ l' → a.volume.toInt ≤ b.volume.toInt := by
  intro h
  have hs : SameDay [Sample.first, Sample.blank, Sample.last] :=
    sameDay_sample <| by simp [Sample.first, Sample.blank, Sample.last]
  have hv := h _ [] [Sample.blank] [] Sample.first Sample.last hs (by simp [Accepted]; decide) rfl
  exact absurd hv <| by decide

end QuoteValidator

end Cpp
