import Tyche.CharArray
import Tyche.Cpp.Message

namespace Cpp

-- What is read of the market data that the trading interface delivers.
structure DepthMarketDataField where
  tradingDay         : CharArray 9
  exchangeID         : CharArray 9
  lastPrice          : Floating
  preSettlementPrice : Floating
  openPrice          : Floating
  highestPrice       : Floating
  lowestPrice        : Floating
  volume             : BitVec 32
  turnover           : Floating
  openInterest       : Floating
  upperLimitPrice    : Floating
  lowerLimitPrice    : Floating
  updateTime         : CharArray 9
  updateMillisec     : BitVec 32
  bidPrice1          : Floating
  bidVolume1         : BitVec 32
  askPrice1          : Floating
  askVolume1         : BitVec 32
  instrumentID       : CharArray 81

-- The type of the prices is left open.
structure QuoteTick (P : Type) where
  instrumentId    : CharArray 32
  lastPrice       : P
  bidPrice1       : P
  askPrice1       : P
  bidVolume1      : BitVec 32
  askVolume1      : BitVec 32
  openInterest    : P
  turnover        : P
  upperLimitPrice : P
  lowerLimitPrice : P
  openPrice       : P
  highPrice       : P
  lowPrice        : P
  preSettlePrice  : P
  updateTime      : CharArray 9
  exchangeId      : CharArray 9
  tradingDay      : CharArray 9
  volume          : BitVec 32
  updateMillisec  : BitVec 32
  receiveTsNs     : BitVec 64

def depthToPayload (d : DepthMarketDataField) : Payload := [
  (utf8 "instrument_id",     .string d.instrumentID.text),
  (utf8 "exchange_id",       .string d.exchangeID.text),
  (utf8 "last_price",        .double d.lastPrice),
  (utf8 "volume",            .int d.volume),
  (utf8 "bid_price1",        .double d.bidPrice1),
  (utf8 "bid_volume1",       .int d.bidVolume1),
  (utf8 "ask_price1",        .double d.askPrice1),
  (utf8 "ask_volume1",       .int d.askVolume1),
  (utf8 "upper_limit_price", .double d.upperLimitPrice),
  (utf8 "lower_limit_price", .double d.lowerLimitPrice),
  (utf8 "open_price",        .double d.openPrice),
  (utf8 "high_price",        .double d.highestPrice),
  (utf8 "low_price",         .double d.lowestPrice),
  (utf8 "pre_settle_price",  .double d.preSettlementPrice),
  (utf8 "open_interest",     .double d.openInterest),
  (utf8 "turnover",          .double d.turnover),
  (utf8 "update_time",       .string d.updateTime.text),
  (utf8 "update_millisec",   .int d.updateMillisec),
  (utf8 "trading_day",       .string d.tradingDay.text)]

def tickToPayload (tick : QuoteTick Floating) : Payload := [
  (utf8 "instrument_id",   .string tick.instrumentId.text),
  (utf8 "exchange_id",     .string tick.exchangeId.text),
  (utf8 "last_price",      .double tick.lastPrice),
  (utf8 "volume",          .int tick.volume),
  (utf8 "bid_price1",      .double tick.bidPrice1),
  (utf8 "bid_volume1",     .int tick.bidVolume1),
  (utf8 "ask_price1",      .double tick.askPrice1),
  (utf8 "ask_volume1",     .int tick.askVolume1),
  (utf8 "upper_limit",     .double tick.upperLimitPrice),
  (utf8 "lower_limit",     .double tick.lowerLimitPrice),
  (utf8 "open_price",      .double tick.openPrice),
  (utf8 "high_price",      .double tick.highPrice),
  (utf8 "low_price",       .double tick.lowPrice),
  (utf8 "pre_settle",      .double tick.preSettlePrice),
  (utf8 "open_interest",   .double tick.openInterest),
  (utf8 "turnover",        .double tick.turnover),
  (utf8 "update_time",     .string tick.updateTime.text),
  (utf8 "update_millisec", .int tick.updateMillisec),
  (utf8 "trading_day",     .string tick.tradingDay.text)]

namespace QuoteTick

def zero : QuoteTick Floating where
  instrumentId    := .zero 32
  lastPrice       := .fin 0
  bidPrice1       := .fin 0
  askPrice1       := .fin 0
  bidVolume1      := 0
  askVolume1      := 0
  openInterest    := .fin 0
  turnover        := .fin 0
  upperLimitPrice := .fin 0
  lowerLimitPrice := .fin 0
  openPrice       := .fin 0
  highPrice       := .fin 0
  lowPrice        := .fin 0
  preSettlePrice  := .fin 0
  updateTime      := .zero 9
  exchangeId      := .zero 9
  tradingDay      := .zero 9
  volume          := 0
  updateMillisec  := 0
  receiveTsNs     := 0

-- A field that is read from a payload. What was read before a value of another type is kept.
def read {α : Type} (payload : Payload) (cast : Any → Option α) (key : Bytes)
    (put : QuoteTick Floating → α → QuoteTick Floating) (tick : QuoteTick Floating) :
    Except (QuoteTick Floating) (QuoteTick Floating) :=
  match payload.lookup key with
  | none   => .ok tick
  | some v =>
    match cast v with
    | some x => .ok <| put tick x
    | none   => .error tick

section

variable (payload : Payload)

def readString := read payload fun
  | .string s => some s
  | _         => none

def readDouble := read payload fun
  | .double x => some x
  | _         => none

def readInt := read payload fun
  | .int i => some i
  | _      => none

def fill (tick : QuoteTick Floating) : Except (QuoteTick Floating) (QuoteTick Floating) := do
  let tick ← readString payload (utf8 "instrument_id")
    (fun tick s => { tick with instrumentId := tick.instrumentId.strncpy s 31 (by decide) }) tick
  let tick ← readString payload (utf8 "exchange_id")
    (fun tick s => { tick with exchangeId := tick.exchangeId.strncpy s 8 (by decide) }) tick
  let tick ← readDouble payload (utf8 "last_price") ({ · with lastPrice := · }) tick
  let tick ← readInt payload (utf8 "volume") ({ · with volume := · }) tick
  let tick ← readDouble payload (utf8 "bid_price1") ({ · with bidPrice1 := · }) tick
  let tick ← readInt payload (utf8 "bid_volume1") ({ · with bidVolume1 := · }) tick
  let tick ← readDouble payload (utf8 "ask_price1") ({ · with askPrice1 := · }) tick
  let tick ← readInt payload (utf8 "ask_volume1") ({ · with askVolume1 := · }) tick
  let tick ← readDouble payload (utf8 "upper_limit") ({ · with upperLimitPrice := · }) tick
  let tick ← readDouble payload (utf8 "lower_limit") ({ · with lowerLimitPrice := · }) tick
  let tick ← readDouble payload (utf8 "open_price") ({ · with openPrice := · }) tick
  let tick ← readDouble payload (utf8 "high_price") ({ · with highPrice := · }) tick
  let tick ← readDouble payload (utf8 "low_price") ({ · with lowPrice := · }) tick
  let tick ← readDouble payload (utf8 "pre_settle") ({ · with preSettlePrice := · }) tick
  let tick ← readDouble payload (utf8 "open_interest") ({ · with openInterest := · }) tick
  let tick ← readDouble payload (utf8 "turnover") ({ · with turnover := · }) tick
  let tick ← readString payload (utf8 "update_time")
    (fun tick s => { tick with updateTime := tick.updateTime.strncpy s 8 (by decide) }) tick
  let tick ← readInt payload (utf8 "update_millisec") ({ · with updateMillisec := · }) tick
  readString payload (utf8 "trading_day")
    (fun tick s => { tick with tradingDay := tick.tradingDay.strncpy s 8 (by decide) }) tick

end

-- What `on_quote_received` makes of a payload.
def ofPayload (nowNs : BitVec 64) (payload : Payload) : QuoteTick Floating :=
  let tick :=
    match fill payload zero with
    | .ok tick    => tick
    | .error tick => tick
  { tick with receiveTsNs := nowNs }

end QuoteTick

-- The test for an option in `on_quote_received`.
def isOption (options : List Bytes) (payload : Payload) : Bool :=
  match payload.lookup (utf8 "instrument_id") with
  | some (.string id) => !id.isEmpty && decide (id ∈ options)
  | _                 => false

end Cpp
