import Tyche.Cpp.QuoteTick
import Tyche.Decimal

namespace Cpp

-- `sscanf` with "%d:%d:%d".
namespace Scan

def IsSpace (c : UInt8) : Prop :=
  c = 32 ∨ 9 ≤ c ∧ c ≤ 13

instance : DecidablePred IsSpace :=
  fun _ => inferInstanceAs <| Decidable (_ ∨ _)

def sign : Bytes → Bool × Bytes
  | 43 :: s => (false, s)
  | 45 :: s => (true, s)
  | s       => (false, s)

-- A number of at most nine digits, as there are in the texts of a tick, has a value of type `int`.
def int (s : Bytes) : Option (ℤ × Bytes) :=
  let (neg, s) := sign <| s.dropWhile IsSpace
  let digits := s.takeWhile Digits.IsDigit
  if digits = [] then
    none
  else
    let n : ℤ := Digits.read digits
    some (if neg then -n else n, s.dropWhile Digits.IsDigit)

def colon : Bytes → Option Bytes
  | 58 :: s => some s
  | _       => none

def time (s : Bytes) : Option (ℤ × ℤ × ℤ) := do
  let (hour, s) ← int s
  let s ← colon s
  let (minute, s) ← int s
  let s ← colon s
  let (second, _) ← int s
  return (hour, minute, second)

end Scan

namespace QuoteValidator

def maxPriceJumpRatio : ℚ :=
  1 / 10

def milliseconds (time : ℤ × ℤ × ℤ) (updateMillisec : BitVec 32) : BitVec 64 :=
  .ofInt 64 time.1 * 3600000 + .ofInt 64 time.2.1 * 60000 + .ofInt 64 time.2.2 * 1000 +
    updateMillisec.signExtend 64

-- `strncmp` over the size of the arrays tells texts apart.
def crossDay (current prev : QuoteTick ℚ) : Bool :=
  !current.tradingDay.text.isEmpty && !prev.tradingDay.text.isEmpty &&
    current.tradingDay.text != prev.tradingDay.text

def isPriceWithinLimits (current prev : QuoteTick ℚ) : Bool :=
  if prev.lastPrice ≤ 0 then
    true
  else if prev.lowerLimitPrice ≤ 0 ∨ prev.upperLimitPrice ≤ 0 then
    true
  else if prev.lastPrice ≤ prev.lowerLimitPrice ∨ prev.upperLimitPrice ≤ prev.lastPrice then
    true
  else
    let priceDiff := current.lastPrice - prev.lastPrice
    let priceChangeRatio :=
      if 0 ≤ priceDiff then priceDiff / prev.lastPrice else -priceDiff / prev.lastPrice
    if maxPriceJumpRatio < priceChangeRatio then
      decide (current.lowerLimitPrice ≤ current.lastPrice) &&
        decide (current.lastPrice ≤ current.upperLimitPrice)
    else
      true

def isTimestampRegression (current prev : QuoteTick ℚ) : Bool :=
  if crossDay current prev then
    false
  else
    match Scan.time current.updateTime.text, Scan.time prev.updateTime.text with
    | some cur, some pre =>
      milliseconds cur current.updateMillisec < milliseconds pre prev.updateMillisec
    | _, _               => false

def validate (current : QuoteTick ℚ) : Option (QuoteTick ℚ) → Bool
  | none      => true
  | some prev =>
    if prev.lastPrice = 0 then
      true
    else if crossDay current prev then
      true
    else if !isPriceWithinLimits current prev then
      false
    else if isTimestampRegression current prev then
      false
    else if current.volume.slt prev.volume then
      false
    else
      true

end QuoteValidator

end Cpp
