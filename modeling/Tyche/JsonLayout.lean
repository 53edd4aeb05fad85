import Tyche.JsonWords

-- The way of writing the texts of JSON on several lines.
namespace JsonText

-- The beginning of a line.
def newline (n : ℕ) : Bytes :=
  10 :: .replicate n 32

namespace Text

mutual

-- Each item and each member is on a line of its own, two spaces further in than the value that it
-- is part of.
def layout (n : ℕ) : Text → Bytes
  | .word w         => w
  | .string r       => 34 :: (r ++ [34])
  | .array []       => [91, 93]
  | .array (t :: l) => 91 :: (newline (n + 2) ++ (layoutItems (n + 2) (t :: l) ++
      (newline n ++ [93])))
  | .object []      => [123, 125]
  | .object (e :: m) => 123 :: (newline (n + 2) ++ (layoutMembers (n + 2) (e :: m) ++
      (newline n ++ [125])))

def layoutItems (n : ℕ) : List Text → Bytes
  | []     => []
  | [t]    => t.layout n
  | t :: l => t.layout n ++ (44 :: (newline n ++ layoutItems n l))

def layoutMembers (n : ℕ) : List (Bytes × Text) → Bytes
  | []          => []
  | [(k, t)]    => 34 :: (k ++ (34 :: 58 :: 32 :: t.layout n))
  | (k, t) :: m =>
    34 :: (k ++ (34 :: 58 :: 32 :: (t.layout n ++ (44 :: (newline n ++ layoutMembers n m)))))

end

end Text

variable {c : UInt8} {s r w : Bytes} {n k : ℕ} {t u : Text} {l : List Text}
  {m : List (Bytes × Text)}

def Blank (w : Bytes) : Prop :=
  ∀ c ∈ w, IsSpace c

theorem blank_newline : Blank (newline n) := by
  rintro c (_ | ⟨_, h⟩)
  case head => exact .inr <| .inr <| .inl rfl
  case tail => exact .inl <| List.eq_of_mem_replicate h

theorem skip_blank (h : Blank w) : skip (w ++ s) = skip s := by
  rw [skip, List.dropWhile_append_of_pos fun c hc => decide_eq_true <| h c hc, skip]

theorem layoutItems_cons : Text.layoutItems n (t :: u :: l) =
    t.layout n ++ (44 :: (newline n ++ Text.layoutItems n (u :: l))) :=
  rfl

theorem layoutMembers_cons {k k' : Bytes} : Text.layoutMembers n ((k, t) :: (k', u) :: m) =
    34 :: (k ++ (34 :: 58 :: 32 ::
      (t.layout n ++ (44 :: (newline n ++ Text.layoutMembers n ((k', u) :: m)))))) :=
  rfl

theorem delimited_blank (h : Blank w) (hs : Delimited s) : Delimited (w ++ s) := by
  cases w
  case nil      => exact hs
  case cons c w => exact delimited_space <| h c <| .head _

section

variable [Dialect]

theorem value_blank (h : Blank w) : value n (w ++ s) = value n s := by
  cases n
  case zero => rfl
  case succ => rw [value, value, skip_blank h]

theorem items_blank (h : Blank w) : items n (w ++ s) = items n s := by
  cases n
  case zero => rfl
  case succ => rw [items, items, value_blank h]

theorem members_blank (h : Blank w) : members n (w ++ s) = members n s := by
  cases n
  case zero => rfl
  case succ => rw [members, members, skip_blank h]

theorem layout_start (h : Lexed t) : ∃ c s, t.layout n = c :: s ∧ ¬IsSpace c ∧ c ≠ 93 := by
  cases t
  case word w   =>
    obtain ⟨c, s, he, hc, -, -, h93, -⟩ := h.start
    exact ⟨c, s, he, hc, h93⟩
  case string r => exact ⟨34, _, rfl, by decide, by decide⟩
  case array l  => cases l <;> exact ⟨91, _, rfl, by decide, by decide⟩
  case object m => cases m <;> exact ⟨123, _, rfl, by decide, by decide⟩

theorem layoutItems_start (h : Lexed t) :
    ∃ c s, Text.layoutItems n (t :: l) = c :: s ∧ ¬IsSpace c ∧ c ≠ 93 := by
  obtain ⟨c, s, he, hc⟩ := layout_start (n := n) h
  cases l
  case nil  => exact ⟨c, s, he, hc⟩
  case cons => exact ⟨c, _, by rw [layoutItems_cons, he, List.cons_append], hc⟩

theorem value_bracket : value (n + 1) (91 :: s) =
    match skip s with
    | 93 :: s => some (.array [], s)
    | s       => (items n s).map fun (l, s) => (.array l, s) :=
  rfl

theorem value_brace : value (n + 1) (123 :: s) =
    match skip s with
    | 125 :: s => some (.object [], s)
    | s        => (members n s).map fun (m, s) => (.object m, s) :=
  rfl

-- What is inside the brackets of an array or an object may begin on the next line.
theorem value_array_blank (hw : Blank w) (hb : ∃ c b, r = c :: b ∧ ¬IsSpace c ∧ c ≠ 93) :
    value (n + 1) (91 :: (w ++ (r ++ s))) = (items n (r ++ s)).map fun (l, s) => (.array l, s) := by
  rw [← value_array hb, value_bracket, value_bracket, skip_blank hw]

theorem value_object_blank (hw : Blank w) : value (n + 1) (123 :: (w ++ 34 :: s)) =
    (members n (34 :: s)).map fun (m, s) => (.object m, s) := by
  rw [← value_object, value_brace, value_brace, skip_blank hw]

mutual

theorem value_layout : ∀ {t : Text} {k n : ℕ} {s : Bytes}, Lexed t → (t.layout k).length ≤ n →
    Delimited s → value n (t.layout k ++ s) = t.read.map (·, s)
  | t, k, 0, _, h, hn, _                         => by
    obtain ⟨c, r, he, -⟩ := layout_start (n := k) h
    rw [he] at hn
    cases hn
  | .word w, _, n + 1, s, h, _, hs               => value_word h hs
  | .string r, _, n + 1, s, h, _, _              => by
    rw [Text.layout, List.cons_append, List.append_assoc, Text.read, Option.map_map]
    exact value_string h
  | .array [], _, n + 1, s, _, _, _              => rfl
  | .array (t :: l), k, n + 1, s, h, hn, _       => by
    simp only [Text.layout, newline, List.length_cons, List.length_append] at hn
    have hl := @items_layout t l (k + 2) n (newline k) s h.left h.right blank_newline (by omega)
    rw [Text.layout, List.cons_append, List.append_assoc, List.append_assoc, List.append_assoc,
      value_array_blank blank_newline (layoutItems_start h.left), Text.read]
    change (items n (_ ++ (newline k ++ 93 :: s))).map _ = _
    rw [hl]
    cases Text.readItems (t :: l) <;> rfl
  | .object [], _, n + 1, s, _, _, _             => rfl
  | .object ((i, t) :: m), k, n + 1, s, h, hn, _ => by
    simp only [Text.layout, newline, List.length_cons, List.length_append] at hn
    have hm := @members_layout i t m (k + 2) n (newline k) s h.left h.right.left h.right.right
      blank_newline (by omega)
    have hs : ∃ b, Text.layoutMembers (k + 2) ((i, t) :: m) = 34 :: b := by
      cases m <;> exact ⟨_, rfl⟩
    obtain ⟨b, hb⟩ := hs
    rw [hb] at hm
    rw [Text.layout, List.cons_append, List.append_assoc, List.append_assoc, List.append_assoc, hb,
      List.cons_append, value_object_blank blank_newline, Text.read]
    change (members n (34 :: b ++ (newline k ++ 125 :: s))).map _ = _
    rw [hm]
    cases Text.readMembers ((i, t) :: m) <;> rfl

theorem items_layout : ∀ {t : Text} {l : List Text} {k n : ℕ} {w s : Bytes}, Lexed t →
    Text.ForallItems IsWord IsRaw l → Blank w → (Text.layoutItems k (t :: l)).length < n →
    items n (Text.layoutItems k (t :: l) ++ (w ++ 93 :: s)) = (Text.readItems (t :: l)).map (·, s)
  | t, l, _, 0, _, _, _, _, _, hn      => absurd hn (Nat.not_lt_zero _)
  | t, [], k, n + 1, w, s, ht, _, hw, hn => by
    have hd : Delimited (w ++ 93 :: s) := delimited_blank hw delimited_bracket
    rw [Text.layoutItems, items_succ (value_layout ht (Nat.le_of_lt_succ hn) hd), skip_blank hw,
      skip_cons (by decide), Text.readItems]
    cases t.read <;> rfl
  | t, u :: l, k, n + 1, w, s, ht, h, hw, hn => by
    simp only [layoutItems_cons, newline, List.length_cons, List.length_append] at hn
    have hl := @items_layout u l k n w s h.left h.right hw (by omega)
    rw [layoutItems_cons, List.append_assoc, List.cons_append, List.append_assoc,
      items_succ (value_layout ht (by omega) delimited_comma), skip_cons (by decide),
      Text.readItems]
    change (t.read.bind fun v => (items n (newline k ++ _)).map _) = _
    rw [items_blank blank_newline, hl]
    cases t.read <;> cases Text.readItems (u :: l) <;> rfl

theorem members_layout : ∀ {i : Bytes} {t : Text} {m : List (Bytes × Text)} {k n : ℕ}
    {w s : Bytes}, IsRaw i → Lexed t → Text.ForallMembers IsWord IsRaw m → Blank w →
    (Text.layoutMembers k ((i, t) :: m)).length < n →
    members n (Text.layoutMembers k ((i, t) :: m) ++ (w ++ 125 :: s)) =
      (Text.readMembers ((i, t) :: m)).map (·, s)
  | i, t, m, _, 0, _, _, _, _, _, _, hn => absurd hn (Nat.not_lt_zero _)
  | i, t, [], k, n + 1, w, s, hi, ht, _, hw, hn => by
    have hd : Delimited (w ++ 125 :: s) := delimited_blank hw delimited_brace
    simp only [Text.layoutMembers, List.length_cons, List.length_append] at hn
    have hv := @value_layout t k n (w ++ 125 :: s) ht (by omega) hd
    rw [Text.layoutMembers, List.cons_append, List.append_assoc]
    change members (n + 1) (34 :: (i ++ 34 :: 58 :: 32 :: (t.layout k ++ (w ++ 125 :: s)))) = _
    rw [members_succ hi hv, skip_blank hw, skip_cons (by decide), Text.readMembers]
    cases content i <;> cases t.read <;> rfl
  | i, t, (i', u) :: m, k, n + 1, w, s, hi, ht, h, hw, hn => by
    simp only [layoutMembers_cons, newline, List.length_cons, List.length_append] at hn
    have hm := @members_layout i' u m k n w s h.left h.right.left h.right.right hw (by omega)
    have hv := @value_layout t k n
      (44 :: (newline k ++ (Text.layoutMembers k ((i', u) :: m) ++ (w ++ 125 :: s)))) ht
      (by omega) delimited_comma
    rw [layoutMembers_cons, List.cons_append, List.append_assoc]
    change members (n + 1)
      (34 :: (i ++ 34 :: 58 :: 32 :: (t.layout k ++ (44 :: _) ++ (w ++ 125 :: s)))) = _
    rw [List.append_assoc, List.cons_append, List.append_assoc, members_succ hi hv,
      skip_cons (by decide), Text.readMembers]
    change ((content i).bind fun i => t.read.bind fun v => (members n (newline k ++ _)).map _) = _
    rw [members_blank blank_newline, hm]
    cases content i <;> cases t.read <;> cases Text.readMembers ((i', u) :: m) <;> rfl

end

-- What is laid out is read as the value that its words and strings are read as, if they are, and
-- nothing is left of it.
theorem value_layout_all (h : Lexed t) :
    value (t.layout n).length (t.layout n) = t.read.map (·, []) := by
  have hv := value_layout (s := []) h (le_refl (t.layout n).length) nofun
  rwa [List.append_nil] at hv

theorem parse_layout (h : Lexed t) : parse (t.layout n) = t.read := by
  rw [parse, value_layout_all h]
  cases t.read <;> rfl

end

section

variable {P : Bytes → Prop}

theorem Compositional.newline (hp : Compositional P) (hl : P [10]) : P (newline n) := by
  refine hp.append (s := [10]) hl ?_
  induction n
  case zero      => exact hp.nil
  case succ n hi => exact hp.cons hi

mutual

theorem layout_forall (hp : Compositional P) (hl : P [10]) :
    ∀ {t : Text} {n : ℕ}, t.Forall P P → P (t.layout n)
  | .word _, _, h        => h
  | .string _, _, h      => hp.enclose h
  | .array [], _, _      => hp.cons <| hp.cons hp.nil
  | .array (_ :: _), _, h => hp.cons <| hp.append (hp.newline hl) <|
    hp.append (layoutItems_forall hp hl h) <| hp.append (hp.newline hl) <| hp.cons hp.nil
  | .object [], _, _     => hp.cons <| hp.cons hp.nil
  | .object (_ :: _), _, h => hp.cons <| hp.append (hp.newline hl) <|
    hp.append (layoutMembers_forall hp hl h) <| hp.append (hp.newline hl) <| hp.cons hp.nil

theorem layoutItems_forall (hp : Compositional P) (hl : P [10]) :
    ∀ {l : List Text} {n : ℕ}, Text.ForallItems P P l → P (Text.layoutItems n l)
  | [], _, _          => hp.nil
  | [_], _, h         => layout_forall hp hl h.left
  | _ :: _ :: _, _, h => hp.append (layout_forall hp hl h.left) <| hp.cons <|
    hp.append (hp.newline hl) <| layoutItems_forall hp hl h.right

theorem layoutMembers_forall (hp : Compositional P) (hl : P [10]) :
    ∀ {m : List (Bytes × Text)} {n : ℕ}, Text.ForallMembers P P m → P (Text.layoutMembers n m)
  | [], _, _                    => hp.nil
  | [(_, _)], _, h              => hp.member h.left <| layout_forall hp hl h.right.left
  | (_, _) :: (_, _) :: _, _, h => hp.member h.left <|
    hp.append (layout_forall hp hl h.right.left) <| hp.cons <| hp.append (hp.newline hl) <|
    layoutMembers_forall hp hl h.right.right

end

end

end JsonText
