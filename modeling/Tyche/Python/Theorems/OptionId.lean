import Mathlib.Data.List.TakeWhile
import Tyche.Python.OptionId
import Tyche.Rounding

namespace Python

open Digits

variable {u : Unicode} {s t : Bytes} {c : UInt8} {n : ℕ} {neg : Bool}

def IsAscii (s : Bytes) : Prop :=
  ∀ c ∈ s, c < 128

namespace Str

theorem not_isContinuation (h : c < 128) : ¬IsContinuation c :=
  fun hc => absurd h <| UInt8.not_lt.mpr hc.left

theorem length_ascii (h : IsAscii s) : length s = s.length :=
  List.countP_eq_length.mpr fun c hc => decide_eq_true <| not_isContinuation <| h c hc

theorem drop_ascii (h : IsAscii s) : drop n s = s.drop n := by
  induction n generalizing s
  case zero      => cases s <;> rfl
  case succ n hi =>
    cases s
    case nil      => rfl
    case cons c s =>
      have hs : IsAscii s := (List.forall_mem_cons.mp h).right
      have hd : s.dropWhile IsContinuation = s := by
        cases s
        case nil      => rfl
        case cons d s =>
          exact List.dropWhile_cons_of_neg <| by simpa using not_isContinuation <| hs d <| .head _
      rw [drop, hd, hi hs]
      rfl

theorem rfind_append (hs : IsAscii s) (ht : c ∉ t) : rfind c (s ++ c :: t) = s.length := by
  have hp : ∀ d ∈ t.reverse, decide (d ≠ c) = true :=
    fun d hm => decide_eq_true fun hd => ht <| hd ▸ List.mem_reverse.mp hm
  have hd : (s ++ c :: t).reverse.dropWhile (· ≠ c) = c :: s.reverse := by
    rw [List.reverse_append, List.reverse_cons, List.append_assoc, List.dropWhile_append_of_pos hp]
    exact List.dropWhile_cons_of_neg <| by simp
  rw [rfind, hd]
  dsimp only
  rw [List.reverse_reverse, length_ascii hs]

-- What is before the last one of a character is shorter than the string.
theorem rfind_append_lt (hs : IsAscii s) (ht : c ∉ t) : rfind c (s ++ t) < s.length := by
  have hp : ∀ d ∈ t.reverse, decide (d ≠ c) = true :=
    fun d hm => decide_eq_true fun hd => ht <| hd ▸ List.mem_reverse.mp hm
  rw [rfind, List.reverse_append, List.dropWhile_append_of_pos hp]
  cases hd : s.reverse.dropWhile (· ≠ c)
  case nil      => exact lt_of_lt_of_le (by decide) <| Int.natCast_nonneg s.length
  case cons d r =>
    have hr : d :: r <:+ s.reverse := hd ▸ List.dropWhile_suffix _
    have hl := hr.length_le
    have ha : IsAscii r.reverse := by
      intro b hb
      exact hs b <| List.mem_reverse.mp <| hr.subset <| .tail _ <| List.mem_reverse.mp hb
    rw [List.length_reverse, List.length_cons] at hl
    dsimp only
    rw [length_ascii ha, List.length_reverse]
    omega

end Str

namespace Float

theorem mem_dropWhile {p : UInt8 → Bool} (h : c ∈ s) (hp : p c = false) : c ∈ s.dropWhile p := by
  rw [← List.takeWhile_append_dropWhile (p := p) (l := s)] at h
  rcases List.mem_append.mp h with h | h
  case inl => simp [List.mem_takeWhile_imp h] at hp
  case inr => exact h

theorem mem_strip (h : c ∈ s) (hc : ¬IsSpace c) : c ∈ strip s := by
  have hp : decide (IsSpace c) = false := decide_eq_false hc
  refine List.mem_reverse.mpr <| mem_dropWhile (List.mem_reverse.mpr ?_) hp
  exact mem_dropWhile h hp

theorem mem_dropUnderscores {prev : UInt8} (hs : dropUnderscores prev s = some t) (h : c ∈ s)
    (hc : c ≠ 95) : c ∈ t := by
  induction s generalizing prev t
  case nil          => cases h
  case cons d s hi =>
    rw [dropUnderscores] at hs
    split at hs
    case isTrue hd =>
      split at hs
      case isFalse => cases hs
      case isTrue  =>
        refine hi hs <| (List.mem_cons.mp h).resolve_left fun he => hc <| he.trans hd
    case isFalse hd =>
      split at hs
      case isTrue  => cases hs
      case isFalse =>
        obtain ⟨r, hr, rfl⟩ := Option.map_eq_some_iff.mp hs
        rcases List.mem_cons.mp h with rfl | h
        case inl => exact .head _
        case inr => exact .tail _ <| hi hr h

theorem mem_readSign (h : c ∈ s) (hc : c ≠ 43 ∧ c ≠ 45) : c ∈ (Decimal.readSign s).2 := by
  unfold Decimal.readSign
  split
  case h_1 => exact (List.mem_cons.mp h).resolve_left hc.left
  case h_2 => exact (List.mem_cons.mp h).resolve_left hc.right
  case h_3 => exact h

-- No text of a number has a P.
theorem readExponent_eq_none (h : 80 ∈ s) : Decimal.readExponent s = none := by
  cases s
  case nil      => cases h
  case cons c s =>
    rw [Decimal.readExponent]
    refine if_neg ?_
    rintro ⟨hc, -, hd⟩
    rcases List.mem_cons.mp h with rfl | h
    case inl => revert hc; decide
    case inr =>
      have hm : 80 ∈ (Decimal.readSign s).2 := mem_readSign h <| by decide
      have := List.all_eq_true.mp hd 80 hm
      revert this
      decide

theorem readFinite_eq_none (h : 80 ∈ s) : Decimal.readFinite neg s = none := by
  have hd : 80 ∈ s.dropWhile IsDigit := mem_dropWhile h <| by decide
  have hf : 80 ∈ (Decimal.readFrac <| s.dropWhile IsDigit).2 := by
    unfold Decimal.readFrac
    split
    case h_1 t ht =>
      rw [ht] at hd
      exact mem_dropWhile ((List.mem_cons.mp hd).resolve_left <| by decide) <| by decide
    case h_2 => exact hd
  unfold Decimal.readFinite
  dsimp only
  rw [readExponent_eq_none hf]
  split <;> rfl

theorem special_eq_none (h : 80 ∈ s) : special neg s = none := by
  have hm : 112 ∈ s.map Decimal.lower := List.mem_map.mpr ⟨80, h, rfl⟩
  unfold special
  dsimp only
  rw [if_neg, if_neg]
  case hnc =>
    intro he
    rw [he] at hm
    revert hm
    decide
  case hnc =>
    rintro (he | he)
    all_goals
      rw [he] at hm
      revert hm
      decide

theorem ofText_eq_none (h : 80 ∈ s) : ofText s = none := by
  unfold ofText
  cases hs : dropUnderscores 0 (strip s)
  case none   => rfl
  case some t =>
    have ht : 80 ∈ t := mem_dropUnderscores hs (mem_strip h <| by decide) <| by decide
    have hr : 80 ∈ (Decimal.readSign t).2 := mem_readSign ht <| by decide
    simp only [Option.bind_eq_bind, Option.bind_some, readFinite_eq_none hr, special_eq_none hr]

theorem not_isSpace (h : IsDigit c) : ¬IsSpace c := by
  rintro (rfl | ⟨-, hc⟩)
  case inl => revert h; decide
  case inr => exact absurd (UInt8.le_trans h.left hc) <| by decide

theorem dropWhile_digits (hd : ∀ c ∈ s, IsDigit c) : s.dropWhile IsSpace = s := by
  cases s
  case nil      => rfl
  case cons c s =>
    exact List.dropWhile_cons_of_neg <| by simpa using not_isSpace <| hd c <| .head _

theorem strip_digits (hd : ∀ c ∈ s, IsDigit c) : strip s = s := by
  have hr : ∀ c ∈ s.reverse, IsDigit c := fun c hc => hd c <| List.mem_reverse.mp hc
  rw [strip, dropWhile_digits hd, dropWhile_digits hr, List.reverse_reverse]

theorem dropUnderscores_digits {prev : UInt8} (hd : ∀ c ∈ s, IsDigit c) (hp : prev ≠ 95) :
    dropUnderscores prev s = some s := by
  induction s generalizing prev
  case nil          => exact if_neg hp
  case cons c s hi =>
    rw [List.forall_mem_cons] at hd
    have hc : c ≠ 95 := by
      rintro rfl
      exact absurd hd.left <| by decide
    rw [dropUnderscores, if_neg hc, if_neg fun h => hp h.left, hi hd.right hc]
    rfl

theorem readSign_digits (hd : ∀ c ∈ s, IsDigit c) : Decimal.readSign s = (false, s) := by
  unfold Decimal.readSign
  split
  case h_1 => exact absurd (hd 43 <| .head _) <| by decide
  case h_2 => exact absurd (hd 45 <| .head _) <| by decide
  case h_3 => rfl

-- A number is read from its digits.
theorem ofText_digits (hd : ∀ c ∈ s, IsDigit c) (hn : s ≠ []) :
    ofText s = some (.double (Digits.read s)) := by
  have hf : Decimal.readFinite false (s ++ []) = _ :=
    Decimal.readFinite_int hd hn (by simp [Decimal.Ends]) (by simp)
  rw [List.append_nil] at hf
  unfold ofText
  rw [strip_digits hd, dropUnderscores_digits hd (by decide)]
  simp only [Option.bind_eq_bind, Option.bind_some, readSign_digits hd, hf]
  simp [Decimal.readExponent, Decimal.value]

end Float

-- An option id by its parts.
structure OptionId where
  product      : Bytes
  month        : Bytes
  isCall       : Bool
  strike       : Bytes
  product_ne   : product ≠ []
  letters      : ∀ c ∈ product, 65 ≤ c ∧ c ≤ 90 ∨ 97 ≤ c ∧ c ≤ 122
  monthDigits  : ∀ c ∈ month, IsDigit c
  strike_ne    : strike ≠ []
  strikeDigits : ∀ c ∈ strike, IsDigit c

namespace OptionId

def flag (o : OptionId) : UInt8 :=
  if o.isCall then 67 else 80

def compact (o : OptionId) : Bytes :=
  o.product ++ o.month ++ o.flag :: o.strike

def dashed (o : OptionId) : Bytes :=
  o.product ++ o.month ++ 45 :: ([o.flag] ++ 45 :: o.strike)

variable {o : OptionId}

def strikePrice (o : OptionId) : Floating :=
  .double (Digits.read o.strike)

theorem isAscii_digits (h : ∀ c ∈ s, IsDigit c) : IsAscii s :=
  fun c hc => UInt8.lt_of_le_of_lt (h c hc).right <| by decide

theorem isAscii_product : IsAscii o.product := by
  intro c hc
  rcases o.letters c hc with h | h
  all_goals exact UInt8.lt_of_le_of_lt h.right <| by decide

theorem isAscii_append (hs : IsAscii s) (ht : IsAscii t) : IsAscii (s ++ t) :=
  List.forall_mem_append.mpr ⟨hs, ht⟩

theorem isAscii_cons (hc : c < 128) (hs : IsAscii s) : IsAscii (c :: s) :=
  List.forall_mem_cons.mpr ⟨hc, hs⟩

theorem isAscii_flag : o.flag < 128 := by
  unfold flag
  split <;> decide

theorem isAscii_strike : IsAscii o.strike :=
  isAscii_digits o.strikeDigits

theorem isAscii_body : IsAscii (o.product ++ o.month) :=
  isAscii_append isAscii_product <| isAscii_digits o.monthDigits

theorem isAscii_compact : IsAscii o.compact :=
  isAscii_append isAscii_body <| isAscii_cons isAscii_flag isAscii_strike

theorem not_mem_digits (h : ∀ c ∈ s, IsDigit c) (hc : ¬IsDigit c) : c ∉ s :=
  fun hm => hc <| h c hm

theorem not_mem_strike (hc : ¬IsDigit c) : c ∉ o.strike :=
  not_mem_digits o.strikeDigits hc

theorem dash_not_mem_body : 45 ∉ o.product ++ o.month := by
  intro hm
  rcases List.mem_append.mp hm with hm | hm
  case inl => exact absurd (o.letters 45 hm) <| by decide
  case inr => exact absurd (o.monthDigits 45 hm) <| by decide

theorem dash_not_mem_flag : 45 ∉ [o.flag] := by
  unfold flag
  split <;> decide

theorem dash_not_mem_compact : 45 ∉ o.compact := by
  rw [compact, List.append_cons]
  refine List.not_mem_append (List.not_mem_append dash_not_mem_body dash_not_mem_flag) ?_
  exact not_mem_strike <| by decide

theorem split_compact : Str.split 45 o.compact = [o.compact] :=
  List.splitOn_eq_singleton dash_not_mem_compact

theorem split_dashed : Str.split 45 o.dashed = [o.product ++ o.month, [o.flag], o.strike] := by
  rw [Str.split, dashed, List.splitOn_append_cons_self_of_not_mem dash_not_mem_body,
    List.splitOn_append_cons_self_of_not_mem dash_not_mem_flag,
    List.splitOn_eq_singleton (not_mem_strike <| by decide)]

theorem normalizeOptionId_compact : GreeksEngine.normalizeOptionId o.compact = o.compact := by
  rw [GreeksEngine.normalizeOptionId, split_compact]

theorem normalizeOptionId_dashed : GreeksEngine.normalizeOptionId o.dashed = o.compact := by
  rw [GreeksEngine.normalizeOptionId, split_dashed]
  exact (List.append_assoc ..).trans rfl

theorem float_strike : float u o.strike = some o.strikePrice := by
  rw [float, u.toAscii_ascii _ isAscii_strike, Float.ofText_digits o.strikeDigits o.strike_ne]
  rfl

-- The body of an id in capitals, and what follows it.
theorem upper_compact : u.upper o.compact =
    (o.product ++ o.month).map upperChar ++ o.flag :: o.strike := by
  have hs : o.strike.map upperChar = o.strike := by
    refine (List.map_congr_left fun c hc => ?_).trans <| List.map_id _
    exact if_neg fun h => absurd (UInt8.le_trans h.left (o.strikeDigits c hc).right) <| by decide
  have hf : upperChar o.flag = o.flag := by
    unfold flag
    split <;> decide
  rw [u.upper_ascii _ isAscii_compact, compact, List.map_append, List.map_cons]
  exact congrArg₂ _ rfl <| congrArg₂ _ hf hs

theorem isAscii_upper : IsAscii ((o.product ++ o.month).map upperChar) := by
  intro c hc
  obtain ⟨d, hd, rfl⟩ := List.mem_map.mp hc
  unfold upperChar
  split
  case isTrue h  =>
    have hl : (32 : UInt8) ≤ d := UInt8.le_trans (by decide) h.left
    rw [UInt8.lt_iff_toNat_lt, UInt8.toNat_sub_of_le _ _ hl]
    have hu := UInt8.le_iff_toNat_le.mp h.right
    change d.toNat ≤ 122 at hu
    change d.toNat - 32 < 128
    omega
  case isFalse h => exact isAscii_body d hd

theorem body_pos : 0 < ((o.product ++ o.month).map upperChar).length := by
  rw [List.length_map, List.length_append]
  exact Nat.add_pos_left (List.length_pos_of_ne_nil o.product_ne) _

theorem rfind_flag : Str.rfind o.flag (u.upper o.compact) = (o.product ++ o.month).length := by
  rw [upper_compact, Str.rfind_append isAscii_upper, List.length_map]
  refine not_mem_strike ?_
  unfold flag
  split <;> decide

theorem strikeAfter_flag : GreeksEngine.strikeAfter u o.compact o.flag = some o.strikePrice := by
  have hp : (0 : ℤ) < (o.product ++ o.month).length := by
    have := body_pos (o := o)
    rw [List.length_map] at this
    exact_mod_cast this
  have hd : o.compact.drop ((o.product ++ o.month).length + 1) = o.strike := by
    rw [compact, List.append_cons]
    exact List.drop_left' <| by simp [Nat.add_assoc]
  rw [GreeksEngine.strikeAfter, rfind_flag, if_pos hp, Str.drop_ascii isAscii_compact]
  exact hd ▸ float_strike

-- Where a C is found before the flag of a put, no number follows.
theorem strikeAfter_put (h : o.isCall = false) :
    GreeksEngine.strikeAfter u o.compact 67 = none := by
  have hf : o.flag = 80 := by rw [flag, h]; rfl
  have ht : 67 ∉ o.flag :: o.strike :=
    List.not_mem_cons_of_ne_of_not_mem (hf ▸ by decide) <| not_mem_strike <| by decide
  have hl := Str.rfind_append_lt (isAscii_upper (o := o)) ht
  rw [List.length_map] at hl
  rw [GreeksEngine.strikeAfter, upper_compact]
  split
  case isFalse   => rfl
  case isTrue hp =>
    set pos := Str.rfind 67 ((o.product ++ o.month).map upperChar ++ o.flag :: o.strike)
    have hn : (pos + 1).toNat ≤ (o.product ++ o.month).length := by omega
    have ha : IsAscii (o.compact.drop (pos + 1).toNat) :=
      fun c hc => isAscii_compact c <| List.mem_of_mem_drop hc
    rw [Str.drop_ascii isAscii_compact, float, u.toAscii_ascii _ ha]
    refine Float.ofText_eq_none ?_
    rw [compact, List.drop_append_of_le_length hn, hf]
    exact List.mem_append_right _ <| .head _

theorem parseStrike_compact : GreeksEngine.parseStrike u o.compact = some o.strikePrice := by
  rw [GreeksEngine.parseStrike, split_compact, if_neg (by simp)]
  have hs := strikeAfter_flag (u := u) (o := o)
  cases hc : o.isCall
  case true  =>
    rw [flag, hc] at hs
    exact Option.or_eq_some_iff.mpr <| .inl hs
  case false =>
    rw [flag, hc] at hs
    rw [strikeAfter_put hc]
    exact hs

theorem parseStrike_dashed : GreeksEngine.parseStrike u o.dashed = some o.strikePrice := by
  rw [GreeksEngine.parseStrike, split_dashed, if_pos (by simp)]
  exact float_strike

theorem parseIsCall_compact : GreeksEngine.parseIsCall u o.compact = some o.isCall := by
  have hp := rfind_flag (u := u) (o := o)
  have hb := body_pos (o := o)
  rw [List.length_map] at hb
  have hl {c : UInt8} (hc : c ≠ o.flag) (hd : ¬IsDigit c) :
      Str.rfind c (u.upper o.compact) < (o.product ++ o.month).length := by
    have := Str.rfind_append_lt (isAscii_upper (o := o)) <|
      List.not_mem_cons_of_ne_of_not_mem hc <| not_mem_strike (o := o) hd
    rwa [List.length_map, ← upper_compact] at this
  rw [GreeksEngine.parseIsCall, split_compact, if_neg (by simp)]
  dsimp only
  cases hc : o.isCall
  case true  =>
    rw [flag, hc] at hp hl
    have hq := hl (c := 80) (by decide) (by decide)
    rw [if_pos rfl] at hp
    rw [hp, if_pos ⟨by omega, .inr hq⟩]
  case false =>
    rw [flag, hc] at hp hl
    have hq := hl (c := 67) (by decide) (by decide)
    rw [if_neg Bool.false_ne_true] at hp
    rw [hp, if_neg (by omega), if_pos ⟨by omega, .inr hq⟩]

theorem parseIsCall_dashed : GreeksEngine.parseIsCall u o.dashed = some o.isCall := by
  have hf : u.upper [o.flag] = [o.flag] := by
    rw [u.upper_ascii _ <| List.forall_mem_singleton.mpr isAscii_flag]
    unfold flag
    split <;> rfl
  rw [GreeksEngine.parseIsCall, split_dashed, if_pos (by simp)]
  change (if u.upper [o.flag] = [67] then some true else
    if u.upper [o.flag] = [80] then some false else none) = some o.isCall
  rw [hf, flag]
  cases o.isCall <;> rfl

-- What is read of an id.
structure ReadAs (u : Unicode) (o : OptionId) (s : Bytes) : Prop where
  strike : GreeksEngine.parseStrike u s = some o.strikePrice
  isCall : GreeksEngine.parseIsCall u s = some o.isCall

-- Both spellings of an id are normalized to the compact one, and what is read of each of them is
-- right. Strikes of less than 53 bits are read without rounding.
theorem spelling_readAs (u : Unicode) (o : OptionId) (s : Bytes)
    (h : s = o.compact ∨ s = o.dashed) :
    GreeksEngine.normalizeOptionId s = o.compact ∧ o.ReadAs u s ∧
      o.ReadAs u (GreeksEngine.normalizeOptionId s) ∧
      (Digits.read o.strike < 2 ^ 53 → o.strikePrice = .fin (Digits.read o.strike)) := by
  have hd : Digits.read o.strike < 2 ^ 53 → o.strikePrice = .fin (Digits.read o.strike) :=
    Floating.double_natCast
  rcases h with rfl | rfl
  case inl =>
    rw [normalizeOptionId_compact]
    exact ⟨rfl, ⟨parseStrike_compact, parseIsCall_compact⟩,
      ⟨parseStrike_compact, parseIsCall_compact⟩, hd⟩
  case inr =>
    rw [normalizeOptionId_dashed]
    exact ⟨rfl, ⟨parseStrike_dashed, parseIsCall_dashed⟩,
      ⟨parseStrike_compact, parseIsCall_compact⟩, hd⟩

namespace Sample

def ascii : Unicode where
  upper s           := s.map upperChar
  toAscii s         := s
  upper_ascii _ _   := rfl
  toAscii_ascii _ _ := rfl

-- A put of a product whose code has both flags.
def put : OptionId where
  product      := utf8 "pC"
  month        := utf8 "2506"
  isCall       := false
  strike       := utf8 "400"
  product_ne   := by decide
  letters      := by decide +kernel
  monthDigits  := by decide +kernel
  strike_ne    := by decide
  strikeDigits := by decide +kernel

end Sample

theorem spelling_readAs_put :
    GreeksEngine.normalizeOptionId Sample.put.dashed = Sample.put.compact ∧
    Sample.put.ReadAs Sample.ascii Sample.put.dashed ∧
    Sample.put.ReadAs Sample.ascii (GreeksEngine.normalizeOptionId Sample.put.dashed) ∧
    (Digits.read Sample.put.strike < 2 ^ 53 →
      Sample.put.strikePrice = .fin (Digits.read Sample.put.strike)) :=
  spelling_readAs Sample.ascii Sample.put Sample.put.dashed (.inr rfl)

end OptionId

end Python
