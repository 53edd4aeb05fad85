import Tyche.Dict
import Tyche.Python.OptionId
import Tyche.Python.Value

namespace Python

-- `strptime` with "%Y-%m-%d", and the number of a day as `toordinal` gives it.
namespace Dates

open Digits

def isLeap (year : ℕ) : Bool :=
  year % 4 = 0 && (year % 100 != 0 || year % 400 = 0)

def daysInMonth (year month : ℕ) : ℕ :=
  [31, if isLeap year then 29 else 28, 31, 30, 31, 30, 31, 31, 30, 31, 30, 31].getD (month - 1) 0

def ordinal (year month day : ℕ) : ℕ :=
  let y := year - 1
  let days := y * 365 + y / 4 - y / 100 + y / 400
  days + ((List.range' 1 (month - 1)).map (daysInMonth year)).sum + day

def readYear (s : Bytes) : Option ℕ :=
  if s.length = 4 ∧ s.all IsDigit ∧ 1 ≤ read s then some <| read s else none

-- A number of one or two digits from one on.
def readShort (s : Bytes) : Option ℕ :=
  if s.length ≤ 2 ∧ s.all IsDigit ∧ 1 ≤ read s then some <| read s else none

-- A day of one digit may have a space in front of it.
def readDay : Bytes → Option ℕ
  | [32, c] => readShort [c]
  | s       => readShort s

def strptime (s : Bytes) : Option ℕ :=
  match Str.split 45 s with
  | [y, m, d] => do
    let year ← readYear y
    let month ← readShort m
    let day ← readDay d
    if month ≤ 12 ∧ day ≤ daysInMonth year month then some <| ordinal year month day else none
  | _         => none

end Dates

structure Greeks where
  price : Floating
  delta : Floating
  gamma : Floating
  vega  : Floating
  theta : Floating
  rho   : Floating

-- The functions of the pricing model, which are not looked into.
structure Pricing where
  impliedVol (marketPrice underlyingPrice : Value) (strike t rate : Floating) (isCall : Bool) :
    Except Error Floating
  bsGreeks (underlyingPrice : Value) (strike t rate iv : Floating) (isCall : Bool) :
    Except Error Greeks

-- The day is given by its number.
structure GreeksEngine where
  resolved         : Bool
  underlyingPrices : Dict Bytes Value
  underlyingMap    : Dict Bytes Bytes
  expiryMap        : Dict Bytes Bytes
  riskFreeRate     : Floating
  today            : ℕ

-- What an entry of a published payload holds.
inductive Field
  | str (s : Bytes)
  | value (v : Value)
  | float (x : Floating)
  | bool (b : Bool)

abbrev Update := List (Bytes × Field)

namespace GreeksEngine

def ctpDblMax : ℚ :=
  2 ^ 1024 - 2 ^ 971

def get (payload : List (Key × Value)) (key : String) (default : Value) : Value :=
  (payload.lookup <| .str <| utf8 key).getD default

-- `round` with a number of decimal places.
def round (places : ℕ) : Floating → Floating
  | .fin x => .double (Floating.roundEven (x * 10 ^ places) / 10 ^ places)
  | x      => x

-- `market_price <= 0.0 or market_price >= _CTP_DBL_MAX`
def invalidPrice (marketPrice : Value) : Except Error Bool :=
  marketPrice.number.map fun
    | .fin x => decide (x ≤ 0) || decide (ctpDblMax ≤ x)
    | .inf _ => true
    | .nan   => false

def calcTimeToExpiry (e : GreeksEngine) (expiry : Bytes) : Floating :=
  match Dates.strptime expiry with
  | none     => .fin 0
  | some day =>
    let daysRemaining : ℤ := day - e.today
    if daysRemaining ≤ 0 then .fin 0 else .double (daysRemaining / 365)

-- `_normalize_option_id` of what a payload gives as the id.
def normalize : Value → Except Error Bytes
  | .str s   => .ok <| normalizeOptionId s
  | .bytes _ => .error .typeError
  | _        => .error .attributeError

variable (p : Pricing) (u : Unicode) (e : GreeksEngine)

-- The payload that is published, if any.
def computeAndPublishGreeks (timestamp instrumentId : Bytes) (tick : List (Key × Value)) :
    Except Error (Option Update) :=
  match e.underlyingMap.get? instrumentId with
  | none              => .error <| .keyError none
  | some underlyingId =>
    match e.underlyingPrices.getD underlyingId .none with
    | .none           => .ok none
    | underlyingPrice => do
      let marketPrice := get tick "last_price" <| .float (.fin 0) 0
      if ← invalidPrice marketPrice then
        return none
      else
        match parseStrike u instrumentId, parseIsCall u instrumentId,
            e.expiryMap.get? instrumentId with
        | some strike, some isCall, some expiry =>
          let t := e.calcTimeToExpiry expiry
          if Floating.ReachedBy 0 t then
            return none
          else
            let r := e.riskFreeRate
            let iv ← p.impliedVol marketPrice underlyingPrice strike t r isCall
            if Floating.ExceededBy 0 iv then
              return none
            else
              let g ← p.bsGreeks underlyingPrice strike t r iv isCall
              return some [
                (utf8 "instrument_id",    .str instrumentId),
                (utf8 "underlying_id",    .str underlyingId),
                (utf8 "underlying_price", .value underlyingPrice),
                (utf8 "strike",           .float strike),
                (utf8 "expiry",           .str expiry),
                (utf8 "is_call",          .bool isCall),
                (utf8 "market_price",     .value marketPrice),
                (utf8 "implied_vol",      .float <| round 6 iv),
                (utf8 "delta",            .float <| round 6 g.delta),
                (utf8 "gamma",            .float <| round 6 g.gamma),
                (utf8 "vega",             .float <| round 4 g.vega),
                (utf8 "theta",            .float <| round 4 g.theta),
                (utf8 "rho",              .float <| round 4 g.rho),
                (utf8 "timestamp",        .str timestamp)]
        | _, _, _ => return none

def computeAndPublishGreeksSimple (timestamp instrumentId : Bytes) (tick : List (Key × Value)) :
    Except Error (Option Update) :=
  match e.underlyingMap.get? instrumentId with
  | none              => .error <| .keyError none
  | some underlyingId =>
    match e.underlyingPrices.getD underlyingId .none with
    | .none           => .ok none
    | underlyingPrice => do
      let marketPrice := get tick "last_price" <| .float (.fin 0) 0
      if ← invalidPrice marketPrice then
        return none
      else
        match parseStrike u instrumentId, parseIsCall u instrumentId,
            e.expiryMap.get? instrumentId with
        | some strike, some isCall, some expiry =>
          let t := e.calcTimeToExpiry expiry
          if Floating.ReachedBy 0 t then
            return none
          else
            let r := e.riskFreeRate
            let iv ← p.impliedVol marketPrice underlyingPrice strike t r isCall
            if Floating.ExceededBy 0 iv then
              return none
            else
              let g ← p.bsGreeks underlyingPrice strike t r iv isCall
              return some [
                (utf8 "instrument_id", .str instrumentId),
                (utf8 "delta",         .float <| round 6 g.delta),
                (utf8 "gamma",         .float <| round 6 g.gamma),
                (utf8 "theta",         .float <| round 4 g.theta),
                (utf8 "vega",          .float <| round 4 g.vega),
                (utf8 "rho",           .float <| round 4 g.rho),
                (utf8 "timestamp",     .str timestamp)]
        | _, _, _ => return none

-- `payload.get("instrument_id") or ""`
def instrumentId (payload : List (Key × Value)) : Value :=
  let id := get payload "instrument_id" .none
  if id.truthy then id else .str []

-- The tick that an event is rebuilt as.
def tickOf (instrumentId : Value) (payload : List (Key × Value)) : List (Key × Value) := [
  (.str <| utf8 "instrument_id", instrumentId),
  (.str <| utf8 "last_price",    get payload "last_price" <| .float (.fin 0) 0),
  (.str <| utf8 "bid_price1",    get payload "bid_price1" <| .float (.fin 0) 0),
  (.str <| utf8 "ask_price1",    get payload "ask_price1" <| .float (.fin 0) 0),
  (.str <| utf8 "bid_volume1",   get payload "bid_volume1" <| .int 0),
  (.str <| utf8 "ask_volume1",   get payload "ask_volume1" <| .int 0),
  (.str <| utf8 "volume",        get payload "volume" <| .int 0),
  (.str <| utf8 "open_interest", get payload "open_interest" <| .int 0),
  (.str <| utf8 "update_time",   get payload "update_time" <| .str []),
  (.str <| utf8 "trading_day",   get payload "trading_day" <| .str [])]

def onComputeGreeks (timestamp : Bytes) (payload : List (Key × Value)) :
    Except Error (Option Update) := do
  let id := instrumentId payload
  let normalizedId ← normalize id
  if !id.truthy then
    return none
  else if !e.resolved then
    return none
  else if normalizedId ∉ e.underlyingMap then
    return none
  else
    e.computeAndPublishGreeksSimple p u timestamp normalizedId <| tickOf id payload

-- The answer to the job, with the payload that is published.
def handleComputeGreeks (timestamp : Bytes) (payload : List (Key × Value)) :
    Except Error (List (Bytes × Value) × Option Update) := do
  let id := instrumentId payload
  let normalizedId ← normalize id
  if !e.resolved then
    return ([(utf8 "status", .str <| utf8 "skipped"),
      (utf8 "reason", .str <| utf8 "not_resolved_yet")], none)
  else if normalizedId ∉ e.underlyingMap then
    return ([(utf8 "status", .str <| utf8 "skipped"),
      (utf8 "reason", .str <| utf8 "not_an_option")], none)
  else
    let update ← e.computeAndPublishGreeks p u timestamp normalizedId payload
    return ([(utf8 "status", .str <| utf8 "ok"), (utf8 "instrument_id", id)], update)

end GreeksEngine

end Python
