import Mathlib.Data.List.DropRight
import Tyche.JsonLayout

-- What is read of a text is read of all texts that go on with it, if it does not end in a number.
-- So the text of an object that is cut off is no text.
namespace JsonText

open Digits

variable {c : UInt8} {s t r w : Bytes} {v : Value} {n m : ℕ}

theorem skip_append (h : skip s ≠ []) : skip (s ++ t) = skip s ++ t := by
  rw [skip, List.dropWhile_append, if_neg (by simpa [skip] using h), skip]

theorem skip_skip : skip (skip s) = skip s :=
  List.dropWhile_idempotent _ _

theorem scan_append {x : Bytes} (h : scan s = some (x, r)) : scan (s ++ t) = some (x, r ++ t) := by
  induction s using scan.induct generalizing x r
  case case1             => cases h
  case case2 s           =>
    rw [scan] at h
    cases h
    rfl
  case case3 c s hi      =>
    rw [scan, Option.map_eq_some_iff] at h
    obtain ⟨⟨x, r⟩, h, ⟨⟩⟩ := h
    rw [List.cons_append, List.cons_append, scan, hi h]
    rfl
  case case4 c s hc hs hi =>
    rw [scan.eq_4 c s hc hs, Option.map_eq_some_iff] at h
    obtain ⟨⟨x, r⟩, h, ⟨⟩⟩ := h
    have hb : c ≠ 92 := by
      rintro rfl
      cases s
      case nil      => cases h
      case cons d s => exact hs d s rfl rfl
    rw [List.cons_append, scan_plain hc hb, hi h]
    rfl

theorem string_append {x : Bytes} (h : string s = some (x, r)) :
    string (s ++ t) = some (x, r ++ t) := by
  simp only [string, Option.bind_eq_bind, Option.bind_eq_some_iff] at h
  obtain ⟨⟨raw, q⟩, hs, x, hc, ⟨⟩⟩ := h
  rw [string, scan_append hs]
  change ((content raw).bind _) = _
  rw [hc]
  rfl

theorem digits_append_right {d : Bytes} (h : digits s = some (d, r)) (hr : r ≠ []) :
    digits (s ++ t) = some (d, r ++ t) := by
  unfold digits at h
  split at h
  case isTrue     => cases h
  case isFalse hd =>
    cases h
    have hl : (s.takeWhile IsDigit).length ≠ s.length := by
      intro hl
      have ht := congrArg List.length (List.takeWhile_append_dropWhile (p := IsDigit) (l := s))
      rw [List.length_append] at ht
      exact hr <| List.eq_nil_of_length_eq_zero <| by omega
    rw [digits, List.takeWhile_append, if_neg hl, List.dropWhile_append,
      if_neg hd, if_neg (by simpa using hr)]

theorem fraction_append {f : Bytes} (h : fraction s = some (f, r)) (hr : r ≠ []) :
    s ≠ [] ∧ fraction (s ++ t) = some (f, r ++ t) := by
  cases s
  case nil      => cases h; exact absurd rfl hr
  case cons c s =>
    refine ⟨List.cons_ne_nil _ _, ?_⟩
    by_cases hc : c = 46
    case pos =>
      subst hc
      exact digits_append_right h hr
    case neg =>
      rw [fraction.eq_2 _ (by simpa using hc)] at h
      cases h
      exact fraction.eq_2 _ <| by simpa using hc

theorem readSign_append (h : s ≠ []) :
    Decimal.readSign (s ++ t) = ((Decimal.readSign s).1, (Decimal.readSign s).2 ++ t) := by
  obtain ⟨c, s, rfl⟩ := List.exists_cons_of_ne_nil h
  rw [Decimal.readSign.eq_def, Decimal.readSign.eq_def (c :: s)]
  by_cases hp : c = 43
  case pos => subst hp; rfl
  case neg =>
    by_cases hm : c = 45
    case pos => subst hm; rfl
    case neg => simp [hp, hm]

theorem exponent_append {e : Option ℤ} (h : exponent s = some (e, r)) (hr : r ≠ []) :
    s ≠ [] ∧ exponent (s ++ t) = some (e, r ++ t) := by
  cases s
  case nil      => cases h; exact absurd rfl hr
  case cons c s =>
    refine ⟨List.cons_ne_nil _ _, ?_⟩
    rw [exponent] at h
    rw [List.cons_append, exponent]
    split at h
    case isFalse hc =>
      cases h
      rw [if_neg hc]
      rfl
    case isTrue hc  =>
      rw [if_pos hc]
      simp only [Option.bind_eq_bind, Option.bind_eq_some_iff] at h
      obtain ⟨⟨d, q⟩, hd, ⟨⟩⟩ := h
      have hs : s ≠ [] := by
        rintro rfl
        cases hd
      rw [readSign_append hs]
      change ((digits ((Decimal.readSign s).2 ++ t)).bind _) = _
      rw [digits_append_right hd hr]
      rfl

theorem minus_append (h : s ≠ []) : minus (s ++ t) = ((minus s).1, (minus s).2 ++ t) := by
  obtain ⟨c, s, rfl⟩ := List.exists_cons_of_ne_nil h
  by_cases hc : c = 45
  case pos => subst hc; rfl
  case neg => simp [minus, hc]

theorem number_append (h : number s = some (v, r)) (hr : r ≠ []) :
    number (s ++ t) = some (v, r ++ t) := by
  simp only [number, Option.bind_eq_bind, Option.bind_eq_some_iff] at h
  obtain ⟨⟨int, s₁⟩, hi, ⟨frac, s₂⟩, hf, ⟨exp, s₃⟩, he, h⟩ := h
  dsimp only at h
  split at h
  case isTrue     => cases h
  case isFalse hz =>
    cases h
    obtain ⟨h₂, he⟩ := exponent_append (t := t) he hr
    obtain ⟨h₁, hf⟩ := fraction_append (t := t) hf h₂
    have hs : s ≠ [] := by
      rintro rfl
      cases hi
    rw [number, minus_append hs]
    change ((digits ((minus s).2 ++ t)).bind _) = _
    rw [digits_append_right hi h₁]
    change ((fraction (s₁ ++ t)).bind _) = _
    rw [hf]
    change ((exponent (s₂ ++ t)).bind _) = _
    rw [he]
    exact if_neg hz

theorem literal_eq_some_iff {word : String} {u : Value} :
    literal word u s = some (v, r) ↔ v = u ∧ s = utf8 word ++ r := by
  unfold literal
  constructor
  case mp  =>
    intro h
    split at h
    case isFalse   => cases h
    case isTrue hp =>
      obtain ⟨q, rfl⟩ := hp
      rw [List.drop_left] at h
      cases h
      exact ⟨rfl, rfl⟩
  case mpr =>
    rintro ⟨rfl, rfl⟩
    rw [if_pos (List.prefix_append _ _), List.drop_left]

theorem number_start (h : number s = some (v, r)) : ∃ c q, s = c :: q ∧ (c = 45 ∨ IsDigit c) := by
  simp only [number, Option.bind_eq_bind, Option.bind_eq_some_iff] at h
  obtain ⟨⟨int, q⟩, hi, -⟩ := h
  cases s
  case nil      => cases hi
  case cons c s =>
    refine ⟨c, s, rfl, ?_⟩
    by_contra hn
    rw [not_or] at hn
    have hm : minus (c :: s) = (false, c :: s) := by simp [minus, hn.left]
    rw [hm, digits, List.takeWhile_cons_of_neg (by simpa using hn.right)] at hi
    cases hi

-- What is not a string, an array or an object.
def IsBasic (s : Bytes) : Prop :=
  ∀ c ∈ (skip s).head?, c ≠ 34 ∧ c ≠ 91 ∧ c ≠ 123

theorem container_of_not_isBasic (h : ¬IsBasic s) :
    ∃ c q, skip s = c :: q ∧ (c = 34 ∨ c = 91 ∨ c = 123) := by
  cases hs : skip s
  case nil      =>
    rw [IsBasic, hs] at h
    exact absurd nofun h
  case cons c q =>
    refine ⟨c, q, rfl, ?_⟩
    by_contra hc
    refine h ?_
    rw [IsBasic, hs]
    rintro d ⟨⟩
    tauto

theorem ne_nil_of_skip (h : skip s ≠ []) : s ≠ [] := by
  rintro rfl
  exact h rfl

theorem not_starts_append (hs : s ≠ []) (h : ∀ q, s ≠ c :: q) : ∀ q, s ++ t ≠ c :: q := by
  obtain ⟨d, s, rfl⟩ := List.exists_cons_of_ne_nil hs
  rintro q hq
  cases hq
  exact h s rfl

-- Words that are not taken for anything else, whatever follows them.
structure Distinct [Dialect] : Prop where
  ne   : ∀ w ∈ Dialect.words, w ≠ []
  read : ∀ w ∈ Dialect.words, ∀ s, scalar (w ++ s) = some (.special w, s)

section

variable [Dialect]

theorem special_eq_some (h : special s = some (v, r)) :
    ∃ w ∈ Dialect.words, v = .special w ∧ s = w ++ r := by
  obtain ⟨w, hw, h⟩ := List.exists_of_findSome?_eq_some h
  split at h
  case isFalse   => cases h
  case isTrue hp =>
    obtain ⟨q, rfl⟩ := hp
    rw [List.drop_left] at h
    cases h
    exact ⟨w, hw, rfl, rfl⟩

theorem scalar_append (hd : Distinct) (h : scalar s = some (v, r)) (hr : r ≠ []) :
    scalar (s ++ t) = some (v, r ++ t) := by
  rw [scalar] at h
  simp only [Option.or_eq_some_iff, literal_eq_some_iff] at h
  rcases h with ⟨rfl, rfl⟩ | ⟨-, ⟨rfl, rfl⟩ | ⟨-, ⟨rfl, rfl⟩ | ⟨-, h | ⟨-, h⟩⟩⟩⟩
  · rw [List.append_assoc]; rfl
  · rw [List.append_assoc]; rfl
  · rw [List.append_assoc]; rfl
  · obtain ⟨c, q, rfl, hc⟩ := number_start h
    have hn := number_append (t := t) h hr
    rw [List.cons_append] at hn ⊢
    rw [scalar_number hc, hn, Option.some_or]
  · obtain ⟨w, hw, rfl, rfl⟩ := special_eq_some h
    rw [List.append_assoc, hd.read w hw]

theorem scalar_nil (hd : Distinct) : scalar [] = none := by
  cases h : scalar []
  case none    => rfl
  case some vr =>
    obtain ⟨v, r⟩ := vr
    rw [scalar] at h
    simp only [Option.or_eq_some_iff, literal_eq_some_iff] at h
    rcases h with ⟨-, h⟩ | ⟨-, ⟨-, h⟩ | ⟨-, ⟨-, h⟩ | ⟨-, h | ⟨-, h⟩⟩⟩⟩
    · cases h
    · cases h
    · cases h
    · cases h
    · obtain ⟨w, hw, -, hn⟩ := special_eq_some h
      exact absurd (List.append_eq_nil_iff.mp hn.symm).left (hd.ne w hw)

theorem value_skip : value n (skip s) = value n s := by
  cases n
  case zero => rfl
  case succ => rw [value, value, skip_skip]

theorem value_nil (hd : Distinct) : value n [] = none := by
  cases n
  case zero => rfl
  case succ => exact scalar_nil hd

theorem items_nil (hd : Distinct) : items n [] = none := by
  cases n
  case zero => rfl
  case succ => rw [items, value_nil hd]; rfl

theorem members_nil : members n [] = none := by
  cases n <;> rfl

theorem value_basic (h : IsBasic s) : value (n + 1) s = scalar (skip s) := by
  rw [value]
  split
  case h_1 he => exact absurd rfl (h 34 <| by rw [he]; rfl).1
  case h_2 he => exact absurd rfl (h 91 <| by rw [he]; rfl).2.1
  case h_3 he => exact absurd rfl (h 123 <| by rw [he]; rfl).2.2
  case h_4    => rfl

theorem value_quote : value (n + 1) (34 :: s) = (string s).map fun (x, s) => (.string x, s) :=
  rfl

theorem value_bracket_eq :
    value (n + 1) (91 :: s) = some (v, r) ↔ skip s = 93 :: r ∧ v = .array [] ∨
      (∀ q, skip s ≠ 93 :: q) ∧ ∃ l, items n (skip s) = some (l, r) ∧ v = .array l := by
  rw [value_bracket]
  split
  case h_1 q hq =>
    rw [hq]
    constructor
    case mp  => rintro ⟨⟩; exact .inl ⟨rfl, rfl⟩
    case mpr =>
      rintro (⟨h, rfl⟩ | ⟨h, -⟩)
      case inl => cases h; rfl
      case inr => exact absurd rfl (h q)
  case h_2 hq   =>
    rw [Option.map_eq_some_iff]
    constructor
    case mp  =>
      rintro ⟨⟨l, r⟩, h, ⟨⟩⟩
      exact .inr ⟨fun q h => hq q h, l, h, rfl⟩
    case mpr =>
      rintro (⟨h, -⟩ | ⟨-, l, h, rfl⟩)
      case inl => exact absurd h (hq r)
      case inr => exact ⟨(l, r), h, rfl⟩

theorem value_brace_eq :
    value (n + 1) (123 :: s) = some (v, r) ↔ skip s = 125 :: r ∧ v = .object [] ∨
      (∀ q, skip s ≠ 125 :: q) ∧ ∃ l, members n (skip s) = some (l, r) ∧ v = .object l := by
  rw [value_brace]
  split
  case h_1 q hq =>
    rw [hq]
    constructor
    case mp  => rintro ⟨⟩; exact .inl ⟨rfl, rfl⟩
    case mpr =>
      rintro (⟨h, rfl⟩ | ⟨h, -⟩)
      case inl => cases h; rfl
      case inr => exact absurd rfl (h q)
  case h_2 hq   =>
    rw [Option.map_eq_some_iff]
    constructor
    case mp  =>
      rintro ⟨⟨l, r⟩, h, ⟨⟩⟩
      exact .inr ⟨fun q h => hq q h, l, h, rfl⟩
    case mpr =>
      rintro (⟨h, -⟩ | ⟨-, l, h, rfl⟩)
      case inl => exact absurd h (hq r)
      case inr => exact ⟨(l, r), h, rfl⟩

-- How an array and an object go on after an item and after a member.
theorem items_eq {l : List Value} : items (n + 1) s = some (l, r) ↔ ∃ v q, value n s = some (v, q) ∧
    ((∃ q' l', skip q = 44 :: q' ∧ items n q' = some (l', r) ∧ l = v :: l') ∨
      skip q = 93 :: r ∧ l = [v]) := by
  rw [items]
  constructor
  case mp  =>
    intro h
    simp only [Option.bind_eq_bind, Option.bind_eq_some_iff] at h
    obtain ⟨⟨v, q⟩, hv, h⟩ := h
    refine ⟨v, q, hv, ?_⟩
    dsimp only at h
    split at h
    case h_1 q' hq =>
      obtain ⟨⟨l', r⟩, hl, ⟨⟩⟩ := Option.map_eq_some_iff.mp h
      exact .inl ⟨q', l', hq, hl, rfl⟩
    case h_2 hq    => cases h; exact .inr ⟨hq, rfl⟩
    case h_3       => cases h
  case mpr =>
    rintro ⟨v, q, hv, h⟩
    rw [hv, Option.bind_eq_bind, Option.bind_some]
    dsimp only
    rcases h with ⟨q', l', hq, hl, rfl⟩ | ⟨hq, rfl⟩ <;> rw [hq]
    case inl =>
      change (items n q').map _ = _
      rw [hl]
      rfl
    case inr => rfl

theorem members_eq {l : List (Bytes × Value)} : members (n + 1) s = some (l, r) ↔
    ∃ s₁ k s₂ s₃ v q, skip s = 34 :: s₁ ∧ string s₁ = some (k, s₂) ∧ skip s₂ = 58 :: s₃ ∧
      value n s₃ = some (v, q) ∧
      ((∃ q' l', skip q = 44 :: q' ∧ members n q' = some (l', r) ∧ l = (k, v) :: l') ∨
        skip q = 125 :: r ∧ l = [(k, v)]) := by
  rw [members]
  constructor
  case mp  =>
    intro h
    split at h
    case h_2         => cases h
    case h_1 s₁ hs₁ =>
      simp only [Option.bind_eq_bind, Option.bind_eq_some_iff] at h
      obtain ⟨⟨k, s₂⟩, hk, h⟩ := h
      dsimp only at h
      split at h
      case h_2         => cases h
      case h_1 s₃ hs₃ =>
        simp only [Option.bind_eq_some_iff] at h
        obtain ⟨⟨v, q⟩, hv, h⟩ := h
        refine ⟨s₁, k, s₂, s₃, v, q, hs₁, hk, hs₃, hv, ?_⟩
        dsimp only at h
        split at h
        case h_1 q' hq =>
          obtain ⟨⟨l', r⟩, hl, ⟨⟩⟩ := Option.map_eq_some_iff.mp h
          exact .inl ⟨q', l', hq, hl, rfl⟩
        case h_2 hq    => cases h; exact .inr ⟨hq, rfl⟩
        case h_3       => cases h
  case mpr =>
    rintro ⟨s₁, k, s₂, s₃, v, q, hs₁, hk, hs₃, hv, h⟩
    rw [hs₁]
    change ((string s₁).bind _) = _
    rw [hk, Option.bind_some]
    dsimp only
    rw [hs₃]
    change ((value n s₃).bind _) = _
    rw [hv, Option.bind_some]
    dsimp only
    rcases h with ⟨q', l', hq, hl, rfl⟩ | ⟨hq, rfl⟩ <;> rw [hq]
    case inl =>
      change (members n q').map _ = _
      rw [hl]
      rfl
    case inr => rfl

mutual

theorem value_append (hd : Distinct) : ∀ {n m : ℕ} {s v r}, value n s = some (v, r) →
    (IsBasic s → r ≠ []) → n ≤ m → value m (s ++ t) = some (v, r ++ t)
  | 0, _, _, _, _, h, _, _              => by cases h
  | n + 1, m + 1, s, v, r, h, hr, hm => by
    have hs : skip s ≠ [] := by
      intro hs
      rw [← value_skip, hs, value_nil hd] at h
      cases h
    have ha : skip (s ++ t) = skip s ++ t := skip_append hs
    by_cases hb : IsBasic s
    case pos =>
      have hb' : IsBasic (s ++ t) := by
        rw [IsBasic, ha, List.head?_append_of_ne_nil _ hs]
        exact hb
      rw [value_basic hb] at h
      rw [value_basic hb', ha]
      exact scalar_append hd h (hr hb)
    case neg =>
      have hm := Nat.le_of_succ_le_succ hm
      rw [← value_skip, ha]
      rw [← value_skip] at h
      obtain ⟨c, q, hq, hc⟩ := container_of_not_isBasic hb
      rw [hq] at h ⊢
      rcases hc with rfl | rfl | rfl
      case inl     =>
        rw [value_quote, Option.map_eq_some_iff] at h
        obtain ⟨⟨x, r⟩, h, ⟨⟩⟩ := h
        rw [List.cons_append, value_quote, string_append h]
        rfl
      case inr.inl =>
        rw [List.cons_append, value_bracket_eq]
        rcases value_bracket_eq.mp h with ⟨hs, rfl⟩ | ⟨hs, l, hl, rfl⟩
        case inl => exact .inl ⟨by rw [skip_append (by simp [hs]), hs]; rfl, rfl⟩
        case inr =>
          have hn : skip q ≠ [] := by
            intro hn
            rw [hn, items_nil hd] at hl
            cases hl
          rw [skip_append hn]
          exact .inr ⟨not_starts_append hn hs, l, items_append hd hl hm, rfl⟩
      case inr.inr =>
        rw [List.cons_append, value_brace_eq]
        rcases value_brace_eq.mp h with ⟨hs, rfl⟩ | ⟨hs, l, hl, rfl⟩
        case inl => exact .inl ⟨by rw [skip_append (by simp [hs]), hs]; rfl, rfl⟩
        case inr =>
          have hn : skip q ≠ [] := by
            intro hn
            rw [hn, members_nil] at hl
            cases hl
          rw [skip_append hn]
          exact .inr ⟨not_starts_append hn hs, l, members_append hd hl hm, rfl⟩

theorem items_append (hd : Distinct) : ∀ {n m : ℕ} {s l r}, items n s = some (l, r) → n ≤ m →
    items m (s ++ t) = some (l, r ++ t)
  | 0, _, _, _, _, h, _              => by cases h
  | n + 1, m + 1, s, l, r, h, hm => by
    rw [items_eq] at h ⊢
    obtain ⟨v, q, hv, h⟩ := h
    have hn : skip q ≠ [] := by
      rcases h with ⟨_, _, hq, -⟩ | ⟨hq, -⟩ <;> exact hq ▸ List.cons_ne_nil _ _
    have hm := Nat.le_of_succ_le_succ hm
    refine ⟨v, q ++ t, value_append hd hv (fun _ => ne_nil_of_skip hn) hm, ?_⟩
    rw [skip_append hn]
    rcases h with ⟨q', l', hq, hl, rfl⟩ | ⟨hq, rfl⟩ <;> rw [hq]
    case inl => exact .inl ⟨q' ++ t, l', rfl, items_append hd hl hm, rfl⟩
    case inr => exact .inr ⟨rfl, rfl⟩

theorem members_append (hd : Distinct) : ∀ {n m : ℕ} {s l r}, members n s = some (l, r) → n ≤ m →
    members m (s ++ t) = some (l, r ++ t)
  | 0, _, _, _, _, h, _          => by cases h
  | n + 1, m + 1, s, l, r, h, hm => by
    rw [members_eq] at h ⊢
    obtain ⟨s₁, k, s₂, s₃, v, q, hs₁, hk, hs₃, hv, h⟩ := h
    have hn : skip q ≠ [] := by
      rcases h with ⟨_, _, hq, -⟩ | ⟨hq, -⟩ <;> exact hq ▸ List.cons_ne_nil _ _
    have hm := Nat.le_of_succ_le_succ hm
    refine ⟨s₁ ++ t, k, s₂ ++ t, s₃ ++ t, v, q ++ t, ?_, string_append hk, ?_,
      value_append hd hv (fun _ => ne_nil_of_skip hn) hm, ?_⟩
    · rw [skip_append (by simp [hs₁]), hs₁]
      rfl
    · rw [skip_append (by simp [hs₃]), hs₃]
      rfl
    · rw [skip_append hn]
      rcases h with ⟨q', l', hq, hl, rfl⟩ | ⟨hq, rfl⟩ <;> rw [hq]
      case inl => exact .inl ⟨q' ++ t, l', rfl, members_append hd hl hm, rfl⟩
      case inr => exact .inr ⟨rfl, rfl⟩

end

-- No beginning of the text of an object is a text itself.
theorem parse_cut (hd : Distinct) (h : value n (123 :: s) = some (v, [])) (hp : w <+: 123 :: s)
    (hw : w ≠ 123 :: s) : parse w = none := by
  obtain ⟨t, ht⟩ := hp
  unfold parse
  split
  case h_2        => rfl
  case h_1 u r hu =>
    cases w
    case nil      => rw [List.length_nil] at hu; cases hu
    case cons c w =>
      rw [List.cons_append, List.cons.injEq] at ht
      obtain ⟨rfl, rfl⟩ := ht
      have hb : ¬IsBasic (123 :: w) := fun hb => (hb 123 rfl).2.2 rfl
      have ha := value_append (t := t) hd hu (absurd · hb) (Nat.le_max_left _ n)
      have hv := value_append (t := []) hd h (absurd · fun hb => (hb 123 rfl).2.2 rfl)
        (Nat.le_max_right (123 :: w).length n)
      rw [List.append_nil, ← List.cons_append, ha, Option.some.injEq, Prod.mk.injEq] at hv
      rw [(List.append_eq_nil_iff.mp hv.right).right, List.append_nil] at hw
      exact absurd rfl hw

end

end JsonText
