import Mathlib.Data.List.Infix
import Tyche.JsonWords

-- The search for a key and what follows it in a text that has been written.
namespace JsonText

variable {c : UInt8} {f k r s t w : Bytes} {Q : Text → Prop}

-- What is written as it is inside of a string.
def Quiet (s : Bytes) : Prop :=
  ∀ c ∈ s, c ≠ 34 ∧ c ≠ 92

-- What is looked for begins with the quotation mark in front of the key.
def needle (k f : Bytes) : Bytes :=
  34 :: (k ++ 34 :: f)

-- The insides of strings, from their first character on.
inductive Raw : Bytes → Prop
  | nil                      : Raw []
  | plain (c : UInt8) {r}    : c ≠ 34 → c ≠ 92 → Raw r → Raw (c :: r)
  | escaped (c : UInt8) {r}  : Raw r → Raw (92 :: c :: r)

theorem scan_escaped : scan (92 :: c :: s) = (scan s).map fun (raw, s) => (92 :: c :: raw, s) :=
  rfl

theorem raw_of_scan {n : ℕ} (hn : r.length ≤ n) (h : scan (r ++ 34 :: s) = some (r, s)) :
    Raw r := by
  induction n generalizing r
  case zero      => rw [List.length_eq_zero_iff.mp (Nat.le_zero.mp hn)]; exact .nil
  case succ n hi =>
    rcases r with _ | ⟨c, r⟩
    case nil => exact .nil
    case cons =>
      rw [List.length_cons] at hn
      by_cases h₁ : c = 34
      case pos => subst h₁; cases h
      case neg =>
        by_cases h₂ : c = 92
        case neg =>
          rw [List.cons_append, scan_plain h₁ h₂, Option.map_eq_some_iff] at h
          obtain ⟨⟨r', s'⟩, hr, he⟩ := h
          cases he
          exact .plain c h₁ h₂ <| hi (by omega) hr
        case pos =>
          subst h₂
          rcases r with _ | ⟨d, r⟩
          case nil =>
            rw [List.singleton_append, scan_escaped, Option.map_eq_some_iff] at h
            obtain ⟨⟨r', s'⟩, -, he⟩ := h
            cases he
          case cons =>
            rw [List.length_cons] at hn
            rw [List.cons_append, List.cons_append, scan_escaped, Option.map_eq_some_iff] at h
            obtain ⟨⟨r', s'⟩, hr, he⟩ := h
            cases he
            exact .escaped d <| hi (by omega) hr

theorem IsRaw.raw (h : IsRaw r) : Raw r :=
  raw_of_scan le_rfl (h [])

-- Nothing else ends a string than its closing quotation mark.
theorem prefix_raw (hk : Quiet k) (hr : Raw r) : k ++ 34 :: f <+: r ++ 34 :: s ↔ r = k ∧ f <+: s := by
  induction k generalizing r
  case nil =>
    cases hr
    case nil             => simp
    case plain c r h _ _ => simp [h.symm]
    case escaped         => simp
  case cons c k hi =>
    have hc := hk c (.head _)
    have hk' : Quiet k := fun d hd => hk d (.tail _ hd)
    cases hr
    case nil             => simp [hc.left]
    case plain d r _ _ h =>
      rw [List.cons_append, List.cons_append, List.cons_prefix_cons, hi hk' h, List.cons.injEq,
        and_assoc, eq_comm]
    case escaped         => simp [hc.right, hc.right.symm]

theorem infix_cons : needle k f <:+: c :: s ↔ c = 34 ∧ k ++ 34 :: f <+: s ∨ needle k f <:+: s := by
  rw [List.infix_cons_iff, needle, List.cons_prefix_cons, eq_comm]

theorem infix_cons_of_ne (h : c ≠ 34) : needle k f <:+: c :: s ↔ needle k f <:+: s := by
  rw [infix_cons]
  exact or_iff_right fun hc => h hc.left

theorem infix_append_of_notMem (h : 34 ∉ w) : needle k f <:+: w ++ s ↔ needle k f <:+: s := by
  induction w
  case nil         => rfl
  case cons c w hi =>
    rw [List.mem_cons, not_or] at h
    rw [List.cons_append, infix_cons_of_ne (Ne.symm h.left), hi h.right]

-- From inside of a string on, the key is found at the end of the string or behind it.
theorem infix_raw (hk : Quiet k) (hs : ¬k ++ 34 :: f <+: s) (hr : Raw r) :
    needle k f <:+: r ++ 34 :: s ↔ 34 :: k <:+ r ∧ f <+: s ∨ needle k f <:+: s := by
  induction hr
  case nil =>
    rw [List.nil_append, infix_cons]
    simp [hs]
  case plain c r h _ _ hi =>
    rw [List.cons_append, infix_cons_of_ne h, hi, List.suffix_cons_iff]
    simp [h.symm]
  case escaped c r h hi =>
    rw [List.cons_append, List.cons_append, infix_cons_of_ne (by decide), infix_cons,
      prefix_raw hk h, hi, List.suffix_cons_iff, List.suffix_cons_iff]
    simp only [List.cons.injEq, eq_comm (a := k)]
    tauto

theorem infix_string (hk : Quiet k) (hs : ¬k ++ 34 :: f <+: s) (hr : Raw r) :
    needle k f <:+: 34 :: (r ++ 34 :: s) ↔ 34 :: k <:+ 34 :: r ∧ f <+: s ∨ needle k f <:+: s := by
  rw [infix_cons, prefix_raw hk hr, infix_raw hk hs hr, List.suffix_cons_iff, List.cons.injEq,
    eq_comm (a := k)]
  tauto

namespace Text

mutual

-- There is a member with the property whose key ends in the key that is looked for. An escaped
-- quotation mark in front of that is as good as the one that a key begins with.
def Has (k : Bytes) (Q : Text → Prop) : Text → Prop
  | .word _   => False
  | .string _ => False
  | .array l  => HasItem k Q l
  | .object m => HasMember k Q m

def HasItem (k : Bytes) (Q : Text → Prop) : List Text → Prop
  | []     => False
  | t :: l => t.Has k Q ∨ HasItem k Q l

def HasMember (k : Bytes) (Q : Text → Prop) : List (Bytes × Text) → Prop
  | []          => False
  | (r, t) :: m => 34 :: k <:+ 34 :: r ∧ Q t ∨ t.Has k Q ∨ HasMember k Q m

end

end Text

mutual

theorem not_has_false : ∀ {t : Text}, ¬t.Has k fun _ => False
  | .word _   => id
  | .string _ => id
  | .array _  => not_hasItem_false
  | .object _ => not_hasMember_false

theorem not_hasItem_false : ∀ {l}, ¬Text.HasItem k (fun _ => False) l
  | []     => id
  | _ :: _ => not_or.mpr ⟨not_has_false, not_hasItem_false⟩

theorem not_hasMember_false : ∀ {m}, ¬Text.HasMember k (fun _ => False) m
  | []          => id
  | (_, _) :: _ => not_or.mpr ⟨And.right, not_or.mpr ⟨not_has_false, not_hasMember_false⟩⟩

end

-- What is written as it is inside of a string.
def Verbatim (s : Bytes) : Prop :=
  ∀ c ∈ s, escape c = [c]

variable {b u : Bytes}

theorem Verbatim.quiet (h : Verbatim s) : Quiet s := by
  intro c hc
  have he := h c hc
  constructor <;> rintro rfl <;> cases he

theorem Verbatim.flatMap_escape (h : Verbatim s) : s.flatMap escape = s := by
  rw [List.flatMap_congr h, List.flatMap_singleton']

theorem escape_injective (h : b.flatMap escape = s.flatMap escape) : b = s := by
  have hc := content_escape (b := b)
  rw [h, content_escape, Option.some.injEq] at hc
  exact hc.symm

theorem Verbatim.eq_escape_iff (h : Verbatim u) : u = b.flatMap escape ↔ u = b := by
  conv_lhs => lhs; rw [← h.flatMap_escape]
  exact ⟨escape_injective, congrArg (List.flatMap escape)⟩

theorem suffix_append_of_notMem (h : c ∉ w) : c :: u <:+ w ++ s ↔ c :: u <:+ s := by
  induction w
  case nil         => rfl
  case cons d w hi =>
    rw [List.mem_cons, not_or] at h
    rw [List.cons_append, List.suffix_cons_iff, hi h.right, List.cons.injEq]
    exact or_iff_right fun hd => h.left hd.left

theorem quote_notMem_escape (h : c ≠ 34) : 34 ∉ escape c := by
  have he : Escaped c (escape c) := escape_cases
  generalize escape c = e at he ⊢
  cases he
  case plain            => simpa using h.symm
  case short d _ hd     =>
    have hd' : d ≠ 34 := by rintro rfl; cases hd; exact h rfl
    simpa using hd'.symm
  case hex d e _ hd he' =>
    simp [(ne_of_hexDigit hd).left.symm, (ne_of_hexDigit he').left.symm]

-- Escaping a string does not change where a quotation mark with the text behind it ends the string.
theorem suffix_escape_iff (hu : Verbatim u) : 34 :: u <:+ b.flatMap escape ↔ 34 :: u <:+ b := by
  induction b
  case nil         => rfl
  case cons c b hi =>
    rw [List.flatMap_cons]
    by_cases hc : c = 34
    case pos =>
      subst hc
      change 34 :: u <:+ 92 :: 34 :: b.flatMap escape ↔ _
      rw [List.suffix_cons_iff, List.suffix_cons_iff, List.suffix_cons_iff, hi, List.cons.injEq,
        List.cons.injEq, List.cons.injEq, hu.eq_escape_iff]
      simp
    case neg =>
      rw [suffix_append_of_notMem (quote_notMem_escape hc), hi, List.suffix_cons_iff,
        List.cons.injEq]
      exact (or_iff_right fun h => hc h.left.symm).symm

theorem suffix_key_iff (hu : Verbatim u) :
    34 :: u <:+ 34 :: b.flatMap escape ↔ 34 :: u <:+ 34 :: b := by
  rw [List.suffix_cons_iff, List.suffix_cons_iff, suffix_escape_iff hu, List.cons.injEq,
    List.cons.injEq, hu.eq_escape_iff]

-- What follows a value directly, where no spaces are written in front of a delimiter.
def Shut (s : Bytes) : Prop :=
  ∀ c ∈ s.head?, c = 44 ∨ c = 93 ∨ c = 125

theorem shut_comma : Shut (44 :: s) := by
  rintro c ⟨⟩
  exact .inl rfl

theorem shut_bracket : Shut (93 :: s) := by
  rintro c ⟨⟩
  exact .inr <| .inl rfl

theorem shut_brace : Shut (125 :: s) := by
  rintro c ⟨⟩
  exact .inr <| .inr rfl

section

variable [Dialect]

-- What is looked for behind the key is only found behind the key of a member, if that has the
-- property.
structure Follows (k f : Bytes) (Q : Text → Prop) : Prop where
  quiet  : Quiet k
  start  : ∃ c k', k = c :: k' ∧ c ≠ 44 ∧ c ≠ 58 ∧ c ≠ 93 ∧ c ≠ 125
  colon  : ∃ f', f = 58 :: f'
  member : ∀ {t s}, Lexed t → (f <+: 58 :: 32 :: (t.print ++ s) ↔ Q t)

theorem Follows.not_start {d : UInt8} (h : Follows k f Q) (hd : d = 44 ∨ d = 58 ∨ d = 93 ∨ d = 125) :
    ¬k ++ 34 :: f <+: d :: s := by
  obtain ⟨c, k', rfl, h₁, h₂, h₃, h₄⟩ := h.start
  rw [List.cons_append, List.cons_prefix_cons]
  rintro ⟨rfl, -⟩
  rcases hd with rfl | rfl | rfl | rfl
  · exact h₁ rfl
  · exact h₂ rfl
  · exact h₃ rfl
  · exact h₄ rfl

theorem Follows.not_shut (h : Follows k f Q) (hs : Shut s) :
    ¬k ++ 34 :: f <+: s ∧ ¬f <+: s := by
  cases s
  case nil      =>
    obtain ⟨f', rfl⟩ := h.colon
    simp
  case cons d s =>
    have hd := hs d rfl
    obtain ⟨f', rfl⟩ := h.colon
    refine ⟨h.not_start <| by tauto, ?_⟩
    rw [List.cons_prefix_cons]
    rintro ⟨rfl, -⟩
    exact absurd hd (by decide)

variable {t : Text} {l : List Text} {m : List (Bytes × Text)}

theorem infix_key (h : Follows k f Q) (hr : IsRaw r) (ht : Lexed t) :
    needle k f <:+: 34 :: (r ++ 34 :: 58 :: 32 :: (t.print ++ s)) ↔
      34 :: k <:+ 34 :: r ∧ Q t ∨ needle k f <:+: t.print ++ s := by
  rw [infix_string h.quiet (h.not_start <| .inr <| .inl rfl) hr.raw, h.member ht,
    infix_cons_of_ne (by decide), infix_cons_of_ne (by decide)]

def Unquoted (w : Bytes) : Prop :=
  34 ∉ w

-- The occurrences of a key in a text are those at its members.
mutual

theorem infix_print (h : Follows k f Q) : ∀ {t : Text} {s : Bytes}, Lexed t →
    t.Forall Unquoted (fun _ => True) → Shut s →
    (needle k f <:+: t.print ++ s ↔ t.Has k Q ∨ needle k f <:+: s)
  | .word w, s, _, hw, _           => by
    rw [Text.print, infix_append_of_notMem hw, Text.Has, false_or]
  | .string r, s, hl, _, hs        => by
    have hr : IsRaw r := hl
    rw [Text.print, List.cons_append, List.append_assoc, List.singleton_append,
      infix_string h.quiet (h.not_shut hs).left hr.raw, Text.Has, false_or]
    exact or_iff_right fun hf => (h.not_shut hs).right hf.right
  | .array l, s, hl, hw, _         => by
    rw [Text.print, List.cons_append, List.append_assoc, List.singleton_append,
      infix_cons_of_ne (by decide), infix_printItems h hl hw, Text.Has]
  | .object m, s, hl, hw, _        => by
    rw [Text.print, List.cons_append, List.append_assoc, List.singleton_append,
      infix_cons_of_ne (by decide), infix_printMembers h hl hw, Text.Has]

theorem infix_printItems (h : Follows k f Q) : ∀ {l : List Text} {s : Bytes},
    Text.ForallItems IsWord IsRaw l → Text.ForallItems Unquoted (fun _ => True) l →
    (needle k f <:+: Text.printItems l ++ 93 :: s ↔ Text.HasItem k Q l ∨ needle k f <:+: s)
  | [], s, _, _           => by
    rw [Text.printItems, List.nil_append, infix_cons_of_ne (by decide), Text.HasItem, false_or]
  | [t], s, hl, hw        => by
    rw [Text.printItems, infix_print h hl.left hw.left shut_bracket,
      infix_cons_of_ne (by decide), Text.HasItem, Text.HasItem, or_false]
  | t :: u :: l, s, hl, hw => by
    rw [printItems_cons, List.append_assoc, List.cons_append, List.cons_append,
      infix_print h hl.left hw.left shut_comma, infix_cons_of_ne (by decide),
      infix_cons_of_ne (by decide), infix_printItems h hl.right hw.right]
    exact or_assoc.symm

theorem infix_printMembers (h : Follows k f Q) : ∀ {m : List (Bytes × Text)} {s : Bytes},
    Text.ForallMembers IsWord IsRaw m → Text.ForallMembers Unquoted (fun _ => True) m →
    (needle k f <:+: Text.printMembers m ++ 125 :: s ↔ Text.HasMember k Q m ∨ needle k f <:+: s)
  | [], s, _, _                       => by
    rw [Text.printMembers, List.nil_append, infix_cons_of_ne (by decide), Text.HasMember, false_or]
  | [(r, t)], s, hl, hw               => by
    rw [Text.printMembers, List.cons_append, List.append_assoc]
    change needle k f <:+: 34 :: (r ++ 34 :: 58 :: 32 :: (t.print ++ 125 :: s)) ↔ _
    rw [infix_key h hl.left hl.right.left,
      infix_print h hl.right.left hw.right.left shut_brace, infix_cons_of_ne (by decide),
      Text.HasMember, Text.HasMember, or_false, or_assoc]
  | (r, t) :: (r', u) :: m, s, hl, hw => by
    rw [printMembers_cons, List.cons_append, List.append_assoc]
    change needle k f <:+: 34 :: (r ++ 34 :: 58 :: 32 :: (t.print ++ (44 :: 32 :: _) ++ 125 :: s)) ↔ _
    rw [List.append_assoc, infix_key h hl.left hl.right.left, List.cons_append, List.cons_append,
      infix_print h hl.right.left hw.right.left shut_comma, infix_cons_of_ne (by decide),
      infix_cons_of_ne (by decide), infix_printMembers h hl.right.right hw.right.right]
    change _ ↔ (_ ∨ _ ∨ Text.HasMember k Q ((r', u) :: m)) ∨ _
    rw [or_assoc, or_assoc]

end

-- The search for a key and the string that is its value.
theorem follows_string {v : Bytes} (hk : Quiet k)
    (hs : ∃ c k', k = c :: k' ∧ c ≠ 44 ∧ c ≠ 58 ∧ c ≠ 93 ∧ c ≠ 125) (hv : Quiet v) :
    Follows k (58 :: 32 :: 34 :: (v ++ [34])) (· = .string v) where
  quiet  := hk
  start  := hs
  colon  := ⟨_, rfl⟩
  member := by
    intro t s h
    rw [List.cons_prefix_cons, List.cons_prefix_cons]
    simp only [true_and]
    cases t
    case word w   =>
      obtain ⟨c, w, he, -, hc, -⟩ := h.start
      rw [Text.print, he, List.cons_append, List.cons_prefix_cons]
      exact iff_of_false (fun hp => hc hp.left.symm) nofun
    case string r =>
      have hr : IsRaw r := h
      rw [Text.print, List.cons_append, List.append_assoc, List.cons_prefix_cons]
      change 34 = 34 ∧ v ++ 34 :: [] <+: r ++ 34 :: s ↔ _
      rw [prefix_raw hv hr.raw, Text.string.injEq]
      simp
    case array    => exact iff_of_false (by simp [Text.print]) nofun
    case object   => exact iff_of_false (by simp [Text.print]) nofun

theorem follows_compact {v : Bytes} (hk : Quiet k)
    (hs : ∃ c k', k = c :: k' ∧ c ≠ 44 ∧ c ≠ 58 ∧ c ≠ 93 ∧ c ≠ 125) :
    Follows k (58 :: 34 :: v) (fun _ => False) where
  quiet  := hk
  start  := hs
  colon  := ⟨_, rfl⟩
  member _ := by simp

theorem infix_print_iff (h : Follows k f Q) (hl : Lexed t) (hw : t.Forall Unquoted fun _ => True) :
    needle k f <:+: t.print ↔ t.Has k Q := by
  have hi := infix_print h hl hw (s := []) nofun
  rw [List.append_nil] at hi
  rw [hi]
  exact or_iff_left <| by simp [needle]

end

end JsonText
