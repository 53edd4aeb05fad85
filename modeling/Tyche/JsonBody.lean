import Mathlib.InformationTheory.Coding.UniquelyDecodable
import Tyche.JsonText

-- Words of which none is empty or the beginning of another one.
theorem InformationTheory.UniquelyDecodable.of_prefix {α : Type*} {S : Set (List α)} (hn : [] ∉ S)
    (hp : ∀ v ∈ S, ∀ w ∈ S, v <+: w → v = w) : UniquelyDecodable S := by
  intro vs ws hv hw h
  induction vs generalizing ws
  case nil =>
    cases ws
    case nil       => rfl
    case cons w ws =>
      have he : w = [] := (List.append_eq_nil_iff.mp h.symm).left
      exact absurd (he ▸ hw w (.head _)) hn
  case cons v vs hi =>
    cases ws
    case nil       =>
      have he : v = [] := (List.append_eq_nil_iff.mp h).left
      exact absurd (he ▸ hv v (.head _)) hn
    case cons w ws =>
      rw [List.forall_mem_cons] at hv hw
      rw [List.flatten_cons, List.flatten_cons] at h
      have hl : v <+: v ++ vs.flatten := List.prefix_append ..
      have hr : w <+: v ++ vs.flatten := h ▸ List.prefix_append ..
      have he : v = w := by
        rcases List.prefix_or_prefix_of_prefix hl hr with hp' | hp'
        case inl => exact hp v hv.left w hw.left hp'
        case inr => exact (hp w hw.left v hv.left hp').symm
      subst he
      rw [hi ws hv.right hw.right <| List.append_cancel_left h]

-- What stands between two quotation marks.
namespace JsonText

open InformationTheory

variable {c : UInt8} {p q r s u v w : Bytes}

-- A character of a string as the grammar has it. All bytes that are not in ASCII are let through.
inductive IsChar : Bytes → Prop
  | unescaped {c : UInt8} : 32 ≤ c → c ≠ 34 → c ≠ 92 → IsChar [c]
  | escaped {c : UInt8} : c ∈ utf8 "\"\\/bfnrt" → IsChar [92, c]
  | hex {c₁ c₂ c₃ c₄ : UInt8} {n₁ n₂ n₃ n₄ : ℕ} : hexDigit c₁ = some n₁ → hexDigit c₂ = some n₂ →
    hexDigit c₃ = some n₃ → hexDigit c₄ = some n₄ → IsChar [92, 117, c₁, c₂, c₃, c₄]

def IsBody (r : Bytes) : Prop :=
  ∃ ws : List Bytes, (∀ w ∈ ws, IsChar w) ∧ ws.flatten = r

-- What is on one line, without any control characters.
def Visible (s : Bytes) : Prop :=
  ∀ c ∈ s, 32 ≤ c

theorem Visible.newline (h : Visible s) : 10 ∉ s :=
  fun hn => absurd (h 10 hn) (by decide)

theorem Visible.return (h : Visible s) : 13 ∉ s :=
  fun hn => absurd (h 13 hn) (by decide)

theorem mem_escapes {d : UInt8} (h : escaped c = some d) : c ∈ utf8 "\"\\/bfnrt" := by
  unfold escaped at h
  split_ifs at h
  case pos hc => rcases hc with rfl | rfl | rfl <;> decide +kernel
  all_goals
    subst c
    decide +kernel

theorem escapes_range : ∀ c ∈ utf8 "\"\\/bfnrt", 32 ≤ c ∧ c < 128 ∧ c ≠ 117 := by
  decide +kernel

theorem hexDigit_range {n : ℕ} (h : hexDigit c = some n) : 32 ≤ c ∧ c < 128 := by
  unfold hexDigit at h
  split_ifs at h with h₁ h₂ h₃
  case pos => exact ⟨UInt8.le_trans (by decide) h₁.left, UInt8.lt_of_le_of_lt h₁.right (by decide)⟩
  case pos => exact ⟨UInt8.le_trans (by decide) h₂.left, UInt8.lt_of_le_of_lt h₂.right (by decide)⟩
  case pos => exact ⟨UInt8.le_trans (by decide) h₃.left, UInt8.lt_of_le_of_lt h₃.right (by decide)⟩

theorem ne_of_hexDigit {n : ℕ} (h : hexDigit c = some n) : c ≠ 34 ∧ c ≠ 92 := by
  constructor <;> rintro rfl <;> cases h

theorem scan_plain (h₁ : c ≠ 34) (h₂ : c ≠ 92) :
    scan (c :: s) = (scan s).map fun (raw, s) => (c :: raw, s) := by
  rw [scan.eq_def]
  split
  case h_1 he => cases he
  case h_2 he => cases he; exact absurd rfl h₁
  case h_3 he => cases he; exact absurd rfl h₂
  case h_4 he => cases he; rfl

namespace IsChar

theorem scan (h : IsChar w) : scan (w ++ s) = (scan s).map fun (raw, s) => (w ++ raw, s) := by
  cases h
  case unescaped _ h₁ h₂             => exact scan_plain h₁ h₂
  case escaped                       => rfl
  case hex c₁ c₂ c₃ c₄ _ _ _ _ h₁ h₂ h₃ h₄ =>
    change (JsonText.scan (c₁ :: c₂ :: c₃ :: c₄ :: s)).map _ = _
    rw [scan_plain (ne_of_hexDigit h₁).1 (ne_of_hexDigit h₁).2,
      scan_plain (ne_of_hexDigit h₂).1 (ne_of_hexDigit h₂).2,
      scan_plain (ne_of_hexDigit h₃).1 (ne_of_hexDigit h₃).2,
      scan_plain (ne_of_hexDigit h₄).1 (ne_of_hexDigit h₄).2]
    cases JsonText.scan s <;> rfl

theorem visible (h : IsChar w) : Visible w := by
  cases h
  case unescaped h _ _ => simpa [Visible] using h
  case escaped h       => simpa [Visible] using (escapes_range _ h).left
  case hex h₁ h₂ h₃ h₄ =>
    simpa [Visible] using ⟨(hexDigit_range h₁).left, (hexDigit_range h₂).left,
      (hexDigit_range h₃).left, (hexDigit_range h₄).left⟩

-- The first bytes of a character say where it ends.
theorem eq_of_prefix (hv : IsChar v) (hw : IsChar w) (h : v <+: w) : v = w := by
  cases hv
  case unescaped hv =>
    cases hw <;> simp only [List.cons_prefix_cons] at h
    case unescaped => rw [h.left]
    all_goals exact absurd h.left hv
  case escaped hv   =>
    cases hw <;> simp only [List.cons_prefix_cons] at h
    case unescaped hw => exact absurd h.left.symm hw
    case escaped      => rw [h.right.left]
    case hex          => exact absurd h.right.left (escapes_range _ hv).right.right
  case hex          =>
    cases hw <;> simp only [List.cons_prefix_cons] at h
    case unescaped hw => exact absurd h.left.symm hw
    case escaped hw   => exact absurd h.right.left.symm (escapes_range _ hw).right.right
    case hex          =>
      obtain ⟨-, -, rfl, rfl, rfl, rfl, -⟩ := h
      rfl

-- A quotation mark, or a backslash at the end, only stands behind a backslash.
theorem quote (h : IsChar (u ++ 34 :: v)) : u = [92] := by
  have hm : 34 ∈ u ++ 34 :: v := List.mem_append_right _ (.head _)
  generalize he : u ++ 34 :: v = w at h hm
  cases h
  case unescaped h₁ _  => exact absurd (List.mem_singleton.mp hm).symm h₁
  case escaped         =>
    rcases u with _ | ⟨x, _ | ⟨y, u⟩⟩
    case nil       => cases he
    case cons.nil  => cases he; rfl
    case cons.cons =>
      have hl := congrArg List.length he
      simp at hl
  case hex h₁ h₂ h₃ h₄ =>
    simp [(ne_of_hexDigit h₁).left.symm, (ne_of_hexDigit h₂).left.symm,
      (ne_of_hexDigit h₃).left.symm, (ne_of_hexDigit h₄).left.symm] at hm

theorem backslash (h : IsChar (u ++ [92])) : u = [92] := by
  generalize he : u ++ [92] = w at h
  cases h
  case unescaped c _ _ hc =>
    obtain ⟨-, ⟨⟩⟩ := List.append_inj' (show u ++ [92] = [] ++ [c] from he) rfl
    exact absurd rfl hc
  case escaped c _        => exact (List.append_inj' (show u ++ [92] = [92] ++ [c] from he) rfl).left
  case hex c₁ c₂ c₃ c₄ _ _ _ _ _ _ _ hc =>
    obtain ⟨-, ⟨⟩⟩ :=
      List.append_inj' (show u ++ [92] = [92, 117, c₁, c₂, c₃] ++ [c₄] from he) rfl
    cases hc

end IsChar

theorem uniquelyDecodable_isChar : UniquelyDecodable {w | IsChar w} :=
  UniquelyDecodable.of_prefix nofun fun _ hv _ hw h => hv.eq_of_prefix hw h

namespace IsBody

theorem nil : IsBody [] :=
  ⟨[], nofun, rfl⟩

theorem cons (hw : IsChar w) : IsBody r → IsBody (w ++ r) := by
  rintro ⟨ws, hs, rfl⟩
  exact ⟨w :: ws, List.forall_mem_cons.mpr ⟨hw, hs⟩, rfl⟩

theorem isRaw (h : IsBody r) : IsRaw r := by
  obtain ⟨ws, hw, rfl⟩ := h
  intro s
  induction ws
  case nil          => rfl
  case cons w ws hi =>
    rw [List.forall_mem_cons] at hw
    rw [List.flatten_cons, List.append_assoc, hw.left.scan, hi hw.right]
    rfl

theorem visible (h : IsBody r) : Visible r := by
  obtain ⟨ws, hw, rfl⟩ := h
  intro c hc
  obtain ⟨w, hm, hc⟩ := List.mem_flatten.mp hc
  exact (hw w hm).visible c hc

-- Each byte is a part of one of the characters.
theorem char_of_byte (h : IsBody (p ++ c :: q)) : ∃ p' u v q', p = p' ++ u ∧ q = v ++ q' ∧
    IsBody p' ∧ IsChar (u ++ c :: v) ∧ IsBody q' := by
  obtain ⟨ws, hw, h⟩ := h
  induction ws generalizing p
  case nil          => simp at h
  case cons w ws hi =>
    rw [List.forall_mem_cons] at hw
    rw [List.flatten_cons, List.append_eq_append_iff] at h
    rcases h with ⟨p₁, rfl, h⟩ | ⟨v, hv, h⟩
    case inl =>
      obtain ⟨p', u, v, q', rfl, rfl, hp, hc, hq⟩ := hi hw.right h
      exact ⟨w ++ p', u, v, q', (List.append_assoc ..).symm, rfl, hp.cons hw.left, hc, hq⟩
    case inr =>
      cases v
      case nil      =>
        have hp : IsBody p := by simpa [hv] using IsBody.nil.cons hw.left
        obtain ⟨p', u, v, q', he, rfl, -, hc, hq⟩ := hi (p := []) hw.right h.symm
        obtain ⟨rfl, rfl⟩ := List.append_eq_nil_iff.mp he.symm
        exact ⟨p, [], v, q', (List.append_nil _).symm, rfl, hp, hc, hq⟩
      case cons d v =>
        cases h
        exact ⟨[], p, v, ws.flatten, rfl, rfl, .nil, hv ▸ hw.left, ws, hw.right, rfl⟩

theorem quote (h : IsBody (p ++ 34 :: q)) : ∃ p', p = p' ++ [92] ∧ IsBody p' := by
  obtain ⟨p', u, v, q', rfl, -, hp, hc, -⟩ := h.char_of_byte
  exact ⟨p', by rw [hc.quote], hp⟩

theorem backslash (h : IsBody (p ++ [92])) : ∃ p', p = p' ++ [92] ∧ IsBody p' := by
  obtain ⟨p', u, v, q', rfl, he, hp, hc, -⟩ := h.char_of_byte
  obtain ⟨rfl, -⟩ := List.append_eq_nil_iff.mp he.symm
  exact ⟨p', by rw [hc.backslash], hp⟩

end IsBody

-- What a way of writing a text inside of a string has to be. No quotation mark ends the string early
-- and no backslash is left over, and in the only way to divide it into characters each of them stands
-- for one byte of the text.
structure Escapes (s r : Bytes) : Prop where
  reads     : content r = some s
  closes    : ∀ t, string (r ++ 34 :: t) = some (s, t)
  body      : IsBody r
  quote     : ∀ p q, r = p ++ 34 :: q → ∃ p', p = p' ++ [92] ∧ IsBody p'
  backslash : ∀ p, r = p ++ [92] → ∃ p', p = p' ++ [92] ∧ IsBody p'
  apart     : ∀ ws, (∀ w ∈ ws, IsChar w) → ws.flatten = r →
    List.Forall₂ (fun c w => content w = some [c]) s ws
  visible   : Visible r

theorem Escapes.of_chars {ws : List Bytes} (hr : content ws.flatten = some s)
    (hw : ∀ w ∈ ws, IsChar w) (ha : List.Forall₂ (fun c w => content w = some [c]) s ws) :
    Escapes s ws.flatten := by
  have hb : IsBody ws.flatten := ⟨ws, hw, rfl⟩
  constructor
  case reads     => exact hr
  case closes    =>
    intro t
    rw [string_raw hb.isRaw, hr]
    rfl
  case body      => exact hb
  case quote     => exact fun p q he => IsBody.quote <| he ▸ hb
  case backslash => exact fun p he => IsBody.backslash <| he ▸ hb
  case apart     => exact fun vs hv he => uniquelyDecodable_isChar vs ws hv hw he ▸ ha
  case visible   => exact hb.visible

end JsonText
