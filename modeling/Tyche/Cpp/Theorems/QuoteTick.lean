import Tyche.Cpp.QuoteTick
import Tyche.Cpp.Theorems.Gateway
import Tyche.Dict

-- Under the same keys, one list gives what another one says exactly if they are equal.
theorem List.lookup_all_iff {κ υ : Type} [BEq κ] [LawfulBEq κ] [DecidableEq κ]
    {l l' : List (κ × υ)} (hk : l'.map Prod.fst = l.map Prod.fst) (hn : (l.map Prod.fst).Nodup) :
    (∀ e ∈ l, l'.lookup e.1 = some e.2) ↔ l' = l := by
  induction l generalizing l'
  case nil         => simpa using hk
  case cons e l hi =>
    cases l'
    case nil        => cases hk
    case cons f l' =>
      obtain ⟨k, v⟩ := e
      obtain ⟨k', v'⟩ := f
      obtain ⟨rfl : k' = k, ht⟩ := List.cons.inj hk
      obtain ⟨hm, hn⟩ := List.nodup_cons.mp hn
      have hl : (∀ e ∈ l, ((k', v') :: l').lookup e.1 = some e.2) ↔
          ∀ e ∈ l, l'.lookup e.1 = some e.2 := by
        refine forall₂_congr fun e he => ?_
        rw [List.lookup_cons_ite, if_neg]
        exact fun hk => hm <| List.mem_map.mpr ⟨e, he, hk⟩
      rw [List.forall_mem_cons, hl, hi ht hn, List.lookup_cons_ite, if_pos rfl]
      simp

namespace Cpp

variable {d : DepthMarketDataField} {nowNs : BitVec 64}

namespace QuoteTick

-- The limits and the settlement price are not found under the keys that they are looked for.
theorem ofPayload_depthToPayload : ofPayload nowNs (depthToPayload d) = {
    instrumentId    := CharArray.strncpy (.zero 32) d.instrumentID.text 31 (by decide)
    lastPrice       := d.lastPrice
    bidPrice1       := d.bidPrice1
    askPrice1       := d.askPrice1
    bidVolume1      := d.bidVolume1
    askVolume1      := d.askVolume1
    openInterest    := d.openInterest
    turnover        := d.turnover
    upperLimitPrice := .fin 0
    lowerLimitPrice := .fin 0
    openPrice       := d.openPrice
    highPrice       := d.highestPrice
    lowPrice        := d.lowestPrice
    preSettlePrice  := .fin 0
    updateTime      := CharArray.strncpy (.zero 9) d.updateTime.text 8 (by decide)
    exchangeId      := CharArray.strncpy (.zero 9) d.exchangeID.text 8 (by decide)
    tradingDay      := CharArray.strncpy (.zero 9) d.tradingDay.text 8 (by decide)
    volume          := d.volume
    updateMillisec  := d.updateMillisec
    receiveTsNs     := nowNs } :=
  rfl

end QuoteTick

-- The quantities of a record under the keys of the payload that is published for a tick.
def DepthMarketDataField.quantities (d : DepthMarketDataField) : Payload := [
  (utf8 "instrument_id",   .string d.instrumentID.text),
  (utf8 "exchange_id",     .string d.exchangeID.text),
  (utf8 "last_price",      .double d.lastPrice),
  (utf8 "volume",          .int d.volume),
  (utf8 "bid_price1",      .double d.bidPrice1),
  (utf8 "bid_volume1",     .int d.bidVolume1),
  (utf8 "ask_price1",      .double d.askPrice1),
  (utf8 "ask_volume1",     .int d.askVolume1),
  (utf8 "upper_limit",     .double d.upperLimitPrice),
  (utf8 "lower_limit",     .double d.lowerLimitPrice),
  (utf8 "open_price",      .double d.openPrice),
  (utf8 "high_price",      .double d.highestPrice),
  (utf8 "low_price",       .double d.lowestPrice),
  (utf8 "pre_settle",      .double d.preSettlementPrice),
  (utf8 "open_interest",   .double d.openInterest),
  (utf8 "turnover",        .double d.turnover),
  (utf8 "update_time",     .string d.updateTime.text),
  (utf8 "update_millisec", .int d.updateMillisec),
  (utf8 "trading_day",     .string d.tradingDay.text)]

def Carries (p : Payload) (d : DepthMarketDataField) : Prop :=
  ∀ e ∈ d.quantities, p.lookup e.1 = some e.2

-- The prices that get lost are zero, and the texts leave room for a zero in a tick.
structure DepthMarketDataField.Fits (d : DepthMarketDataField) : Prop where
  upperLimitPrice    : d.upperLimitPrice = .fin 0
  lowerLimitPrice    : d.lowerLimitPrice = .fin 0
  preSettlementPrice : d.preSettlementPrice = .fin 0
  instrumentID       : d.instrumentID.text.length ≤ 31
  exchangeID         : d.exchangeID.text.length ≤ 8
  updateTime         : d.updateTime.text.length ≤ 8
  tradingDay         : d.tradingDay.text.length ≤ 8

theorem cut_text_eq_iff {n m count : ℕ} {a : CharArray n} {h : count ≤ m} :
    ((CharArray.zero m).strncpy a.text count h).text = a.text ↔ a.text.length ≤ count := by
  rw [CharArray.text_strncpy, CharArray.cString_text]
  exact List.take_eq_self_iff a.text

theorem quantities_nodup : (d.quantities.map Prod.fst).Nodup := by
  rw [DepthMarketDataField.quantities]
  simp only [List.map_cons, List.map_nil]
  decide

theorem carries_iff :
    Carries (tickToPayload <| .ofPayload nowNs <| depthToPayload d) d ↔ d.Fits := by
  rw [QuoteTick.ofPayload_depthToPayload]
  refine Iff.trans (List.lookup_all_iff ?_ quantities_nodup) ?_
  case refine_1 => rfl
  case refine_2 =>
    rw [tickToPayload, DepthMarketDataField.quantities]
    simp only [List.cons.injEq, Prod.mk.injEq, Any.string.injEq, Any.double.injEq, true_and,
      and_true, cut_text_eq_iff]
    constructor
    case mp =>
      rintro ⟨hi, he, hu, hl, hp, ht, hd⟩
      exact ⟨hu.symm, hl.symm, hp.symm, hi, he, ht, hd⟩
    case mpr =>
      rintro ⟨hu, hl, hp, hi, he, ht, hd⟩
      exact ⟨hi, he, hu.symm, hl.symm, hp.symm, ht, hd⟩

-- What the gateway does with a record: it is paired with the tick that is pushed for it.
def arrival (options : List Bytes) (nowNs : BitVec 64) (d : DepthMarketDataField) :
    Option (DepthMarketDataField × QuoteTick Floating) :=
  let payload := depthToPayload d
  if isOption options payload then some (d, .ofPayload nowNs payload) else none

-- In a run of the gateway, the payloads that are published for the records of options carry all
-- quantities of exactly those that fit.
theorem published_carries_iff {options : List Bytes} {g : Gateway (DepthMarketDataField × _)}
    {as : List (Gateway.Action (DepthMarketDataField × _))}
    (ha : ∀ a ∈ as, ∀ tick, a = .receive tick → ∃ nowNs d, tick = arrival options nowNs d)
    (he : (Gateway.machine _).exec .start as = some g) :
    ∀ e ∈ g.published, Carries (tickToPayload e.2) e.1 ↔ e.1.Fits := by
  have hp : ∀ e ∈ g.published, ∃ nowNs, e.2 = .ofPayload nowNs (depthToPayload e.1) := by
    refine Gateway.published_of_received (fun a hm => ?_) he
    cases a
    case receive tick =>
      obtain ⟨nowNs, d, rfl⟩ := ha _ hm tick rfl
      intro e h
      rw [Option.mem_def, arrival] at h
      split at h
      case isFalse => cases h
      case isTrue  =>
        cases h
        exact ⟨nowNs, rfl⟩
    all_goals trivial
  intro e hm
  obtain ⟨nowNs, h⟩ := hp e hm
  rw [h]
  exact carries_iff

namespace Sample

-- A record of an option with a settlement price of the day before.
def record (preSettlementPrice : ℚ) : DepthMarketDataField where
  tradingDay         := .zero 9
  exchangeID         := .zero 9
  lastPrice          := .fin 0
  preSettlementPrice := .fin preSettlementPrice
  openPrice          := .fin 0
  highestPrice       := .fin 0
  lowestPrice        := .fin 0
  volume             := 0
  turnover           := .fin 0
  openInterest       := .fin 0
  upperLimitPrice    := .fin 0
  lowerLimitPrice    := .fin 0
  updateTime         := .zero 9
  updateMillisec     := 0
  bidPrice1          := .fin 0
  bidVolume1         := 0
  askPrice1          := .fin 0
  askVolume1         := 0
  instrumentID       := CharArray.strncpy (.zero 81) (utf8 "au2512C500") 80 (by decide)

def options : List Bytes :=
  [utf8 "au2512C500"]

-- A tick is received, pushed, popped and published.
def delivery : List (Gateway.Action (DepthMarketDataField × QuoteTick Floating)) :=
  [.receive <| arrival options 1 <| record 0, .callback true, .callback true, .dispatch true,
    .dispatch true, .dispatch true, .dispatch true]

theorem receive_delivery : ∀ a ∈ delivery, ∀ tick, a = .receive tick →
    ∃ nowNs d, tick = arrival options nowNs d := by
  intro a h tick ht
  simp only [delivery, List.mem_cons, List.not_mem_nil, or_false] at h
  rcases h with rfl | rfl | rfl | rfl | rfl | rfl | rfl
  all_goals cases ht
  exact ⟨1, record 0, rfl⟩

end Sample

theorem published_carries_iff_delivery : ∃ g,
    (Gateway.machine _).exec .start Sample.delivery = some g ∧ g.published.length = 1 ∧
      ∀ e ∈ g.published, Carries (tickToPayload e.2) e.1 ↔ e.1.Fits :=
  ⟨_, rfl, rfl, published_carries_iff Sample.receive_delivery rfl⟩

-- A settlement price other than zero is published under no key.
theorem not_published_carries : ¬∀ d nowNs, ∃ key,
    (tickToPayload <| .ofPayload nowNs <| depthToPayload d).lookup key =
      some (.double d.preSettlementPrice) := by
  intro h
  obtain ⟨key, hk⟩ := h (Sample.record 5) 1
  have hm := List.mem_of_lookup_eq_some hk
  rw [QuoteTick.ofPayload_depthToPayload, tickToPayload] at hm
  simp [Sample.record] at hm

end Cpp
