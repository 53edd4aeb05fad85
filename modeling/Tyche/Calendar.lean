import Tyche.Decimal

-- Days and their texts of the form YYYY-MM-DD, whose order is that of the days.
namespace Calendar

open Digits

structure Date where
  year       : ℕ
  month      : ℕ
  day        : ℕ
  fourDigits : 1000 ≤ year ∧ year < 10000
  isMonth    : 1 ≤ month ∧ month ≤ 12
  isDay      : 1 ≤ day ∧ day ≤ 31
deriving DecidableEq

-- The last digits of a number, of which there are as many as the width says.
def padded : ℕ → ℕ → Bytes
  | 0, _     => []
  | w + 1, n => char (n / 10 ^ w % 10) :: padded w n

def Date.text (d : Date) : Bytes :=
  padded 4 d.year ++ (45 :: (padded 2 d.month ++ (45 :: padded 2 d.day)))

-- A day is not after another one.
def Date.Upto (d e : Date) : Prop :=
  d.year < e.year ∨
    d.year = e.year ∧ (d.month < e.month ∨ d.month = e.month ∧ d.day ≤ e.day)

instance {d e : Date} : Decidable (d.Upto e) :=
  inferInstanceAs <| Decidable (_ ∨ _)

-- The lexicographic order of texts.
def TextLe : Bytes → Bytes → Prop
  | [], _          => True
  | _ :: _, []     => False
  | c :: s, d :: t => c < d ∨ c = d ∧ TextLe s t

instance : ∀ s t, Decidable (TextLe s t)
  | [], _          => isTrue trivial
  | _ :: _, []     => isFalse id
  | c :: s, d :: t =>
    have := instDecidableTextLe s t
    inferInstanceAs <| Decidable (c < d ∨ c = d ∧ TextLe s t)

variable {s t u v : Bytes} {w a b : ℕ} {d e : Date}

end Calendar
