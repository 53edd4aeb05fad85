import Tyche.Bytes

-- The texts that are the UTF-8 form of some characters.
def ValidUtf8 (b : Bytes) : Prop :=
  ∃ cs : List Char, b = cs.flatMap String.utf8EncodeChar

namespace ValidUtf8

variable {b b' : Bytes} {c : Char}

theorem nil : ValidUtf8 [] :=
  ⟨[], rfl⟩

theorem append : ValidUtf8 b → ValidUtf8 b' → ValidUtf8 (b ++ b') := by
  rintro ⟨cs, rfl⟩ ⟨cs', rfl⟩
  exact ⟨cs ++ cs', List.flatMap_append.symm⟩

theorem char : ValidUtf8 (String.utf8EncodeChar c) :=
  ⟨[c], (List.append_nil _).symm⟩

theorem text {s : String} : ValidUtf8 (utf8 s) :=
  ⟨s.toList, rfl⟩

theorem encodeChar_ascii (h : c.toNat < 128) : String.utf8EncodeChar c = [UInt8.ofNat c.toNat] := by
  have hv : c.val.toNat < 128 := h
  rw [String.utf8EncodeChar, if_pos (by omega)]
  rfl

theorem toNat_ofNat : ∀ n < 128, (Char.ofNat n).toNat = n := by
  decide

theorem ascii (h : ∀ x ∈ b, x < 128) : ValidUtf8 b := by
  induction b
  case nil         => exact nil
  case cons x b hi =>
    rw [List.forall_mem_cons] at h
    have hx : x.toNat < 128 := UInt8.lt_iff_toNat_lt.mp h.left
    have hc : (Char.ofNat x.toNat).toNat = x.toNat := toNat_ofNat _ hx
    have he : String.utf8EncodeChar (.ofNat x.toNat) = [x] := by
      rw [encodeChar_ascii (by rw [hc]; exact hx), hc, UInt8.ofNat_toNat]
    rw [← List.singleton_append, ← he]
    exact char.append <| hi h.right

theorem le_ofNat {n : ℕ} (h : 128 ≤ n) (hn : n < 256) : (128 : UInt8) ≤ .ofNat n := by
  rw [UInt8.le_iff_toNat_le, UInt8.toNat_ofNat', Nat.mod_eq_of_lt hn]
  exact h

-- Characters that are not in ASCII have no bytes that are.
theorem le_encodeChar (h : 128 ≤ c.toNat) : ∀ x ∈ String.utf8EncodeChar c, 128 ≤ x := by
  have hv : 128 ≤ c.val.toNat := h
  rw [String.utf8EncodeChar, if_neg (by omega)]
  split_ifs
  all_goals
    simp only [List.forall_mem_cons]
    refine ⟨le_ofNat (by omega) (by omega), ?_⟩
  case pos => exact ⟨le_ofNat (by omega) (by omega), nofun⟩
  case pos =>
    exact ⟨le_ofNat (by omega) (by omega), le_ofNat (by omega) (by omega), nofun⟩
  case neg =>
    exact ⟨le_ofNat (by omega) (by omega), le_ofNat (by omega) (by omega),
      le_ofNat (by omega) (by omega), nofun⟩

theorem encodeChar_ne_nil : String.utf8EncodeChar c ≠ [] := by
  rw [String.utf8EncodeChar]
  split_ifs <;> exact List.cons_ne_nil _ _

theorem tail {x : UInt8} (hx : x < 128) (h : ValidUtf8 (x :: b)) : ValidUtf8 b := by
  obtain ⟨cs, h⟩ := h
  cases cs
  case nil       => cases h
  case cons c cs =>
    rw [List.flatMap_cons] at h
    by_cases hc : c.toNat < 128
    case pos =>
      rw [encodeChar_ascii hc, List.singleton_append, List.cons.injEq] at h
      exact ⟨cs, h.right⟩
    case neg =>
      have hb := le_encodeChar (Nat.not_lt.mp hc)
      obtain ⟨y, e, he⟩ := List.exists_cons_of_ne_nil (encodeChar_ne_nil (c := c))
      rw [he, List.cons_append, List.cons.injEq] at h
      have hy : 128 ≤ y := hb y <| he ▸ .head _
      exact absurd (h.left ▸ hx) (UInt8.not_lt.mpr hy)

-- No character continues with a byte that is in ASCII.
theorem split (h : ValidUtf8 (b ++ b')) (hb : ∀ x ∈ b'.head?, x < 128) :
    ValidUtf8 b ∧ ValidUtf8 b' := by
  obtain ⟨cs, h⟩ := h
  induction cs generalizing b
  case nil          =>
    obtain ⟨rfl, rfl⟩ := List.append_eq_nil_iff.mp h
    exact ⟨nil, nil⟩
  case cons c cs hi =>
    rw [List.flatMap_cons, List.append_eq_append_iff] at h
    rcases h with ⟨e, he, hr⟩ | ⟨e, he, hr⟩
    case inl =>
      cases b
      case nil      => exact ⟨nil, c :: cs, by rw [hr, List.flatMap_cons, he, List.nil_append]⟩
      case cons x b =>
        cases e
        case nil      =>
          rw [List.append_nil] at he
          exact ⟨he ▸ char, cs, hr⟩
        case cons y e =>
          have hy : y < 128 := hb y <| by rw [hr]; rfl
          have hc : ¬c.toNat < 128 := by
            intro hc
            rw [encodeChar_ascii hc] at he
            simpa using congrArg List.length he
          have hm : 128 ≤ y := le_encodeChar (Nat.not_lt.mp hc) y <| by rw [he]; simp
          exact absurd hy (UInt8.not_lt.mpr hm)
    case inr =>
      obtain ⟨hl, hr⟩ := hi hr.symm
      exact ⟨he ▸ char.append hl, hr⟩

theorem of_ascii (hb : ∀ x ∈ b, x < 128) (h : ValidUtf8 (b ++ b')) : ValidUtf8 b' := by
  induction b
  case nil         => exact h
  case cons x b hi =>
    rw [List.forall_mem_cons] at hb
    exact hi hb.right <| tail hb.left h

end ValidUtf8
