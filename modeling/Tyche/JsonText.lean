import Tyche.Decimal

-- The texts of JSON: a parser for all of them, and the way of writing them with one space after each
-- comma and each colon.
namespace JsonText

open Digits

-- Whether a number is written without a fraction and an exponent is kept. Special words are those
-- that some readers know besides the words of JSON.
inductive Value
  | null
  | bool (value : Bool)
  | number (integral : Bool) (value : ℚ)
  | special (word : Bytes)
  | string (value : Bytes)
  | array (items : List Value)
  | object (members : List (Bytes × Value))

def Value.field (key : String) : Value → Option Value
  | .object m => (m.find? (·.1 = utf8 key)).map (·.2)
  | _         => none

def IsSpace (c : UInt8) : Prop :=
  c = 32 ∨ c = 9 ∨ c = 10 ∨ c = 13

instance : DecidablePred IsSpace :=
  fun _ => inferInstanceAs <| Decidable (_ ∨ _)

def skip (s : Bytes) : Bytes :=
  s.dropWhile IsSpace

-- The inside of a string up to its closing quotation mark, and what follows that.
def scan : Bytes → Option (Bytes × Bytes)
  | []           => none
  | 34 :: s      => some ([], s)
  | 92 :: c :: s => (scan s).map fun (raw, s) => (92 :: c :: raw, s)
  | c :: s       => (scan s).map fun (raw, s) => (c :: raw, s)

inductive CodeUnit
  | byte (value : UInt8)
  | utf16 (value : ℕ)

def hexDigit (c : UInt8) : Option ℕ :=
  if 48 ≤ c ∧ c ≤ 57 then some (c.toNat - 48)
  else if 65 ≤ c ∧ c ≤ 70 then some (c.toNat - 55)
  else if 97 ≤ c ∧ c ≤ 102 then some (c.toNat - 87)
  else none

def escaped (c : UInt8) : Option UInt8 :=
  if c = 34 ∨ c = 92 ∨ c = 47 then some c
  else if c = 98 then some 8
  else if c = 102 then some 12
  else if c = 110 then some 10
  else if c = 114 then some 13
  else if c = 116 then some 9
  else none

def unescape : Bytes → Option (List CodeUnit)
  | []                                  => some []
  | 92 :: 117 :: c₁ :: c₂ :: c₃ :: c₄ :: s => do
    let n₁ ← hexDigit c₁
    let n₂ ← hexDigit c₂
    let n₃ ← hexDigit c₃
    let n₄ ← hexDigit c₄
    let us ← unescape s
    return .utf16 (4096 * n₁ + 256 * n₂ + 16 * n₃ + n₄) :: us
  | 92 :: c :: s                        => do
    let c ← escaped c
    let us ← unescape s
    return .byte c :: us
  | c :: s                              =>
    if c < 32 ∨ c = 34 ∨ c = 92 then none else (unescape s).map (.byte c :: ·)

-- The UTF-8 form of a code point.
def utf8Code (n : ℕ) : Bytes :=
  if n < 0x80 then [.ofNat n]
  else if n < 0x800 then [.ofNat (0xc0 + n / 64), .ofNat (0x80 + n % 64)]
  else if n < 0x10000 then
    [.ofNat (0xe0 + n / 4096), .ofNat (0x80 + n / 64 % 64), .ofNat (0x80 + n % 64)]
  else
    [.ofNat (0xf0 + n / 262144), .ofNat (0x80 + n / 4096 % 64), .ofNat (0x80 + n / 64 % 64),
      .ofNat (0x80 + n % 64)]

def IsPair (high low : ℕ) : Prop :=
  0xd800 ≤ high ∧ high < 0xdc00 ∧ 0xdc00 ≤ low ∧ low < 0xe000

instance {high low : ℕ} : Decidable (IsPair high low) :=
  inferInstanceAs <| Decidable (_ ∧ _)

-- A surrogate without its other half stays as it is.
def assemble : List CodeUnit → Bytes
  | []                                => []
  | .byte c :: us                     => c :: assemble us
  | .utf16 high :: .utf16 low :: us   =>
    if IsPair high low then
      utf8Code (0x10000 + (high - 0xd800) * 0x400 + (low - 0xdc00)) ++ assemble us
    else
      utf8Code high ++ assemble (.utf16 low :: us)
  | .utf16 n :: us                    => utf8Code n ++ assemble us

def content (raw : Bytes) : Option Bytes :=
  (unescape raw).map assemble

def string (s : Bytes) : Option (Bytes × Bytes) := do
  let (raw, s) ← scan s
  return (← content raw, s)

def literal (word : String) (v : Value) (s : Bytes) : Option (Value × Bytes) :=
  if utf8 word <+: s then some (v, s.drop (utf8 word).length) else none

def digits (s : Bytes) : Option (Bytes × Bytes) :=
  if s.takeWhile IsDigit = [] then none else some (s.takeWhile IsDigit, s.dropWhile IsDigit)

def minus : Bytes → Bool × Bytes
  | 45 :: s => (true, s)
  | s       => (false, s)

def fraction : Bytes → Option (Bytes × Bytes)
  | 46 :: s => digits s
  | s       => some ([], s)

def exponent : Bytes → Option (Option ℤ × Bytes)
  | []     => some (none, [])
  | c :: s =>
    if c = 101 ∨ c = 69 then do
      let (neg, s) := Decimal.readSign s
      let (ds, s) ← digits s
      return (some <| if neg then -read ds else read ds, s)
    else
      some (none, c :: s)

-- More than one digit does not begin with a zero.
def number (s : Bytes) : Option (Value × Bytes) := do
  let (neg, s) := minus s
  let (int, s) ← digits s
  let (frac, s) ← fraction s
  let (exp, s) ← exponent s
  if int.head? = some 48 ∧ int.length ≠ 1 then
    none
  else
    let sign : ℚ := if neg then -1 else 1
    let value := sign * read (int ++ frac) * 10 ^ (exp.getD 0 - frac.length)
    return (.number (frac.isEmpty && exp.isNone) value, s)

class Dialect where
  words : List Bytes

abbrev Dialect.strict : Dialect where
  words := []

section

variable [Dialect]

def special (s : Bytes) : Option (Value × Bytes) :=
  Dialect.words.findSome? fun w => if w <+: s then some (.special w, s.drop w.length) else none

def scalar (s : Bytes) : Option (Value × Bytes) :=
  (literal "null" .null s).or <| (literal "true" (.bool true) s).or <|
    (literal "false" (.bool false) s).or <| (number s).or <| special s

mutual

-- The first argument bounds the depth of the recursion.
def value : ℕ → Bytes → Option (Value × Bytes)
  | 0, _     => none
  | n + 1, s =>
    match skip s with
    | 34 :: s  => (string s).map fun (t, s) => (.string t, s)
    | 91 :: s  =>
      match skip s with
      | 93 :: s => some (.array [], s)
      | s       => (items n s).map fun (l, s) => (.array l, s)
    | 123 :: s =>
      match skip s with
      | 125 :: s => some (.object [], s)
      | s        => (members n s).map fun (m, s) => (.object m, s)
    | s        => scalar s

def items : ℕ → Bytes → Option (List Value × Bytes)
  | 0, _     => none
  | n + 1, s => do
    let (v, s) ← value n s
    match skip s with
    | 44 :: s => (items n s).map fun (l, s) => (v :: l, s)
    | 93 :: s => some ([v], s)
    | _       => none

def members : ℕ → Bytes → Option (List (Bytes × Value) × Bytes)
  | 0, _     => none
  | n + 1, s =>
    match skip s with
    | 34 :: s => do
      let (k, s) ← string s
      match skip s with
      | 58 :: s => do
        let (v, s) ← value n s
        match skip s with
        | 44 :: s  => (members n s).map fun (m, s) => ((k, v) :: m, s)
        | 125 :: s => some ([(k, v)], s)
        | _        => none
      | _       => none
    | _       => none

end

-- A text has to be a single value.
def parse (s : Bytes) : Option Value :=
  match value s.length s with
  | some (v, s) => if skip s = [] then some v else none
  | none        => none

end

-- A text before it is written: the words and the insides of strings are those of the text.
inductive Text
  | word (text : Bytes)
  | string (raw : Bytes)
  | array (items : List Text)
  | object (members : List (Bytes × Text))

namespace Text

mutual

def print : Text → Bytes
  | .word w   => w
  | .string r => 34 :: (r ++ [34])
  | .array l  => 91 :: (printItems l ++ [93])
  | .object m => 123 :: (printMembers m ++ [125])

def printItems : List Text → Bytes
  | []     => []
  | [t]    => t.print
  | t :: l => t.print ++ (44 :: 32 :: printItems l)

def printMembers : List (Bytes × Text) → Bytes
  | []          => []
  | [(k, t)]    => 34 :: (k ++ (34 :: 58 :: 32 :: t.print))
  | (k, t) :: m => 34 :: (k ++ (34 :: 58 :: 32 :: (t.print ++ (44 :: 32 :: printMembers m))))

end

section

variable [Dialect]

-- A word has to be read as a whole.
def readWord (w : Bytes) : Option Value :=
  match scalar w with
  | some (v, []) => some v
  | _            => none

mutual

def read : Text → Option Value
  | .word w   => readWord w
  | .string r => (content r).map .string
  | .array l  => (readItems l).map .array
  | .object m => (readMembers m).map .object

def readItems : List Text → Option (List Value)
  | []     => some []
  | t :: l => do
    let v ← t.read
    let vs ← readItems l
    return v :: vs

def readMembers : List (Bytes × Text) → Option (List (Bytes × Value))
  | []          => some []
  | (k, t) :: m => do
    let k ← content k
    let v ← t.read
    let vs ← readMembers m
    return (k, v) :: vs

end

end

mutual

-- All words and all insides of strings have the properties.
def Forall (W R : Bytes → Prop) : Text → Prop
  | .word w   => W w
  | .string r => R r
  | .array l  => ForallItems W R l
  | .object m => ForallMembers W R m

def ForallItems (W R : Bytes → Prop) : List Text → Prop
  | []     => True
  | t :: l => t.Forall W R ∧ ForallItems W R l

def ForallMembers (W R : Bytes → Prop) : List (Bytes × Text) → Prop
  | []          => True
  | (k, t) :: m => R k ∧ t.Forall W R ∧ ForallMembers W R m

end

mutual

def weight : Text → ℕ
  | .array l  => 1 + weightItems l
  | .object m => 1 + weightMembers m
  | _         => 1

def weightItems : List Text → ℕ
  | []     => 0
  | t :: l => 1 + t.weight + weightItems l

def weightMembers : List (Bytes × Text) → ℕ
  | []          => 0
  | (_, t) :: m => 1 + t.weight + weightMembers m

end

end Text

-- What may follow a value in an array or an object.
def Delimited (s : Bytes) : Prop :=
  ∀ c ∈ s.head?, c = 44 ∨ c = 93 ∨ c = 125 ∨ IsSpace c

def IsRaw (r : Bytes) : Prop :=
  ∀ s, scan (r ++ 34 :: s) = some (r, s)

section

variable [Dialect]

-- A word is told from other values by its first character, and it ends at a delimiter, whether it can
-- be read or not.
structure IsWord (w : Bytes) : Prop where
  start : ∃ c s, w = c :: s ∧ ¬IsSpace c ∧ c ≠ 34 ∧ c ≠ 91 ∧ c ≠ 93 ∧ c ≠ 123
  ends  : ∀ s, Delimited s → scalar (w ++ s) = (Text.readWord w).map (·, s)

def Lexed (t : Text) : Prop :=
  t.Forall IsWord IsRaw

end

variable {c : UInt8} {s w r : Bytes} {n : ℕ} {t : Text} {l : List Text} {m : List (Bytes × Text)}

theorem skip_cons (h : ¬IsSpace c) : skip (c :: s) = c :: s := by
  rw [skip, List.dropWhile_cons_of_neg (by simpa using h)]

theorem skip_space : skip (32 :: s) = skip s :=
  rfl

theorem string_raw (h : IsRaw r) : string (r ++ 34 :: s) = (content r).map (·, s) := by
  rw [string, h]
  change (content r >>= fun b => some (b, s)) = _
  cases content r <;> rfl

theorem delimited_comma : Delimited (44 :: s) := by
  rintro c ⟨⟩
  exact .inl rfl

theorem delimited_bracket : Delimited (93 :: s) := by
  rintro c ⟨⟩
  exact .inr <| .inl rfl

theorem delimited_brace : Delimited (125 :: s) := by
  rintro c ⟨⟩
  exact .inr <| .inr <| .inl rfl

theorem delimited_space (h : IsSpace c) : Delimited (c :: s) := by
  rintro d ⟨⟩
  exact .inr <| .inr <| .inr h

theorem printItems_cons {u : Text} :
    Text.printItems (t :: u :: l) = t.print ++ (44 :: 32 :: Text.printItems (u :: l)) :=
  rfl

theorem printMembers_cons {k k' : Bytes} {u : Text} :
    Text.printMembers ((k, t) :: (k', u) :: m) =
      34 :: (k ++ (34 :: 58 :: 32 :: (t.print ++ (44 :: 32 :: Text.printMembers ((k', u) :: m))))) :=
  rfl

theorem weight_pos : 0 < t.weight := by
  cases t <;> simp only [Text.weight] <;> omega

section

variable [Dialect]

theorem value_space : value n (32 :: s) = value n s := by
  cases n
  case zero => rfl
  case succ => rw [value, value, skip_space]

theorem items_space : items n (32 :: s) = items n s := by
  cases n
  case zero => rfl
  case succ => rw [items, items, value_space]

theorem members_space : members n (32 :: s) = members n s := by
  cases n
  case zero => rfl
  case succ => rw [members, members, skip_space]

theorem print_start (h : Lexed t) : ∃ c s, t.print = c :: s ∧ ¬IsSpace c ∧ c ≠ 93 := by
  cases t
  case word w =>
    obtain ⟨c, s, he, hc, -, -, h93, -⟩ := h.start
    exact ⟨c, s, he, hc, h93⟩
  all_goals exact ⟨_, _, rfl, by decide, by decide⟩

theorem value_word (hw : IsWord w) (hs : Delimited s) :
    value (n + 1) (w ++ s) = (Text.readWord w).map (·, s) := by
  obtain ⟨c, w', rfl, hc, h34, h91, -, h123⟩ := hw.start
  rw [← hw.ends s hs, value, List.cons_append, skip_cons hc]
  split
  case h_1 he => cases he; exact absurd rfl h34
  case h_2 he => cases he; exact absurd rfl h91
  case h_3 he => cases he; exact absurd rfl h123
  case h_4    => rfl

theorem value_string (h : IsRaw r) :
    value (n + 1) (34 :: (r ++ 34 :: s)) = (content r).map fun b => (.string b, s) := by
  rw [value, skip_cons (by decide)]
  change (string (r ++ 34 :: s)).map _ = _
  rw [string_raw h]
  cases content r <;> rfl

theorem printItems_start (h : Lexed t) :
    ∃ c s, Text.printItems (t :: l) = c :: s ∧ ¬IsSpace c ∧ c ≠ 93 := by
  obtain ⟨c, s, he, hc⟩ := print_start h
  cases l
  case nil  => exact ⟨c, s, he, hc⟩
  case cons => exact ⟨c, _, by rw [printItems_cons, he, List.cons_append], hc⟩

theorem value_array (hb : ∃ c b, r = c :: b ∧ ¬IsSpace c ∧ c ≠ 93) :
    value (n + 1) (91 :: (r ++ s)) = (items n (r ++ s)).map fun (l, s) => (.array l, s) := by
  obtain ⟨c, b, rfl, hc, h93⟩ := hb
  rw [value, skip_cons (by decide), List.cons_append]
  change (match skip (c :: (b ++ s)) with
    | 93 :: s => some (Value.array [], s)
    | s       => (items n s).map fun (l, s) => (.array l, s)) = _
  rw [skip_cons hc]
  split
  case h_1 he => cases he; exact absurd rfl h93
  case h_2    => rfl

theorem value_object : value (n + 1) (123 :: 34 :: s) =
    (members n (34 :: s)).map fun (m, s) => (.object m, s) :=
  rfl

-- One item or member, and what follows it.
theorem items_succ {b : Bytes} {v : Option Value} (h : value n b = v.map (·, s)) :
    items (n + 1) b = v.bind fun v => match skip s with
      | 44 :: s => (items n s).map fun (l, s) => (v :: l, s)
      | 93 :: s => some ([v], s)
      | _       => none := by
  rw [items, h]
  cases v <;> rfl

theorem members_succ {k b : Bytes} {v : Option Value} (hk : IsRaw k)
    (h : value n b = v.map (·, s)) :
    members (n + 1) (34 :: (k ++ 34 :: 58 :: 32 :: b)) =
      (content k).bind fun k => v.bind fun v => match skip s with
        | 44 :: s  => (members n s).map fun (m, s) => ((k, v) :: m, s)
        | 125 :: s => some ([(k, v)], s)
        | _        => none := by
  rw [members, skip_cons (by decide)]
  change ((string (k ++ 34 :: 58 :: 32 :: b)).bind _) = _
  rw [string_raw hk]
  cases content k
  case none   => rfl
  case some k =>
    change ((value n (32 :: b)).bind _) = _
    rw [value_space, h]
    cases v <;> rfl

mutual

theorem value_print : ∀ {t : Text} {n : ℕ} {s : Bytes}, Lexed t → t.weight ≤ n → Delimited s →
    value n (t.print ++ s) = t.read.map (·, s)
  | t, 0, _, _, hn, _                         => absurd hn (Nat.not_le.mpr weight_pos)
  | .word w, n + 1, s, h, _, hs               => value_word h hs
  | .string r, n + 1, s, h, _, _              => by
    rw [Text.print, List.cons_append, List.append_assoc, Text.read, Option.map_map]
    exact value_string h
  | .array [], n + 1, s, _, _, _              => rfl
  | .array (t :: l), n + 1, s, h, hn, _       => by
    rw [Text.weight] at hn
    rw [Text.print, List.cons_append, List.append_assoc, value_array (printItems_start h.left),
      Text.read]
    change (items n (_ ++ 93 :: s)).map _ = _
    rw [items_print h.left h.right (by omega)]
    cases Text.readItems (t :: l) <;> rfl
  | .object [], n + 1, s, _, _, _             => rfl
  | .object ((k, t) :: m), n + 1, s, h, hn, _ => by
    rw [Text.weight] at hn
    have hm := @members_print k t m n s h.left h.right.left h.right.right (by omega)
    have hs : ∃ b, Text.printMembers ((k, t) :: m) = 34 :: b := by
      cases m <;> exact ⟨_, rfl⟩
    obtain ⟨b, hb⟩ := hs
    rw [hb] at hm
    rw [Text.print, List.cons_append, List.append_assoc, hb, Text.read]
    change (members n (34 :: b ++ 125 :: s)).map _ = _
    rw [hm]
    cases Text.readMembers ((k, t) :: m) <;> rfl

theorem items_print : ∀ {t : Text} {l : List Text} {n : ℕ} {s : Bytes}, Lexed t →
    Text.ForallItems IsWord IsRaw l → Text.weightItems (t :: l) ≤ n →
    items n (Text.printItems (t :: l) ++ 93 :: s) = (Text.readItems (t :: l)).map (·, s)
  | t, l, 0, _, _, _, hn           => by
    rw [Text.weightItems] at hn
    omega
  | t, [], n + 1, s, ht, _, hn     => by
    rw [Text.weightItems] at hn
    rw [Text.printItems, items_succ (value_print ht (by omega) delimited_bracket),
      skip_cons (by decide), Text.readItems]
    cases t.read <;> rfl
  | t, u :: l, n + 1, s, ht, h, hn => by
    rw [Text.weightItems] at hn
    have hl := @items_print u l n s h.left h.right (by omega)
    rw [printItems_cons, List.append_assoc, List.cons_append, List.cons_append,
      items_succ (value_print ht (by omega) delimited_comma), skip_cons (by decide),
      Text.readItems]
    change (t.read.bind fun v => (items n (32 :: (Text.printItems (u :: l) ++ 93 :: s))).map _) = _
    rw [items_space, hl]
    cases t.read <;> cases Text.readItems (u :: l) <;> rfl

theorem members_print : ∀ {k : Bytes} {t : Text} {m : List (Bytes × Text)} {n : ℕ} {s : Bytes},
    IsRaw k → Lexed t → Text.ForallMembers IsWord IsRaw m → Text.weightMembers ((k, t) :: m) ≤ n →
    members n (Text.printMembers ((k, t) :: m) ++ 125 :: s) =
      (Text.readMembers ((k, t) :: m)).map (·, s)
  | k, t, m, 0, _, _, _, _, hn                 => by
    rw [Text.weightMembers] at hn
    omega
  | k, t, [], n + 1, s, hk, ht, _, hn          => by
    rw [Text.weightMembers] at hn
    have hv := @value_print t n (125 :: s) ht (by omega) delimited_brace
    rw [Text.printMembers, List.cons_append, List.append_assoc]
    change members (n + 1) (34 :: (k ++ 34 :: 58 :: 32 :: (t.print ++ 125 :: s))) = _
    rw [members_succ hk hv, skip_cons (by decide), Text.readMembers]
    cases content k <;> cases t.read <;> rfl
  | k, t, (k', u) :: m, n + 1, s, hk, ht, h, hn => by
    rw [Text.weightMembers] at hn
    have hm := @members_print k' u m n s h.left h.right.left h.right.right (by omega)
    have hv := @value_print t n (44 :: 32 :: (Text.printMembers ((k', u) :: m) ++ 125 :: s)) ht
      (by omega) delimited_comma
    rw [printMembers_cons, List.cons_append, List.append_assoc]
    change members (n + 1)
      (34 :: (k ++ 34 :: 58 :: 32 :: (t.print ++ (44 :: 32 :: _) ++ 125 :: s))) = _
    rw [List.append_assoc, List.cons_append, List.cons_append, members_succ hk hv,
      skip_cons (by decide), Text.readMembers]
    change ((content k).bind fun k => t.read.bind fun v =>
      (members n (32 :: (Text.printMembers ((k', u) :: m) ++ 125 :: s))).map _) = _
    rw [members_space, hm]
    cases content k <;> cases t.read <;> cases Text.readMembers ((k', u) :: m) <;> rfl

end

theorem length_word_pos (h : IsWord w) : 0 < w.length := by
  obtain ⟨c, s, rfl, -⟩ := h.start
  exact Nat.succ_pos _

mutual

theorem weight_le : ∀ {t : Text}, Lexed t → t.weight ≤ t.print.length
  | .word _, h   => length_word_pos h
  | .string _, _ => by
    rw [Text.weight, Text.print, List.length_cons]
    · omega
    all_goals nofun
  | .array l, h  => by
    have hl := weightItems_le h
    simp only [Text.weight, Text.print, List.length_cons, List.length_append, List.length_nil]
    omega
  | .object m, h => by
    have hm := weightMembers_le h
    simp only [Text.weight, Text.print, List.length_cons, List.length_append, List.length_nil]
    omega

theorem weightItems_le : ∀ {l : List Text}, Text.ForallItems IsWord IsRaw l →
    Text.weightItems l ≤ (Text.printItems l).length + 1
  | [], _          => Nat.zero_le _
  | [t], h         => by
    have ht := weight_le h.left
    rw [Text.weightItems, Text.weightItems, Text.printItems]
    omega
  | t :: u :: l, h => by
    have ht := weight_le h.left
    have hl := weightItems_le h.right
    rw [Text.weightItems, printItems_cons, List.length_append, List.length_cons, List.length_cons]
    omega

theorem weightMembers_le : ∀ {m : List (Bytes × Text)}, Text.ForallMembers IsWord IsRaw m →
    Text.weightMembers m ≤ (Text.printMembers m).length + 1
  | [], _                    => Nat.zero_le _
  | [(k, t)], h              => by
    have ht := weight_le h.right.left
    simp only [Text.weightMembers, Text.printMembers, List.length_cons, List.length_append]
    omega
  | (k, t) :: (k', u) :: m, h => by
    have ht := weight_le h.right.left
    have hm := weightMembers_le h.right.right
    rw [printMembers_cons, Text.weightMembers]
    simp only [List.length_cons, List.length_append]
    omega

end

-- What is printed is read as the value that its words and strings are read as, if they are.
theorem parse_print (h : Lexed t) : parse t.print = t.read := by
  have hv := @value_print _ t t.print.length [] h (weight_le h) nofun
  rw [List.append_nil] at hv
  rw [parse, hv]
  cases t.read <;> rfl

theorem readMembers_cons {k k' : Bytes} {v : Value} {vs : List (Bytes × Value)}
    (hk : content k = some k') (ht : t.read = some v) (hm : Text.readMembers m = some vs) :
    Text.readMembers ((k, t) :: m) = some ((k', v) :: vs) := by
  rw [Text.readMembers, hk, ht, hm]
  rfl

theorem of_readMembers_cons {k : Bytes} {vs : List (Bytes × Value)}
    (h : Text.readMembers ((k, t) :: m) = some vs) : ∃ k' v vs', content k = some k' ∧
      t.read = some v ∧ Text.readMembers m = some vs' ∧ vs = (k', v) :: vs' := by
  rw [Text.readMembers] at h
  cases hk : content k
  case none    => rw [hk] at h; cases h
  case some k' =>
    cases ht : t.read
    case none   => rw [hk, ht] at h; cases h
    case some v =>
      cases hm : Text.readMembers m
      case none    => rw [hk, ht, hm] at h; cases h
      case some vs =>
        rw [hk, ht, hm] at h
        cases h
        exact ⟨k', v, vs, rfl, rfl, rfl, rfl⟩

theorem readItems_cons {v : Value} {vs : List Value} (ht : t.read = some v)
    (hl : Text.readItems l = some vs) : Text.readItems (t :: l) = some (v :: vs) := by
  rw [Text.readItems, ht, hl]
  rfl

end

def punctuation : Bytes :=
  [34, 44, 32, 58, 91, 93, 123, 125]

-- What holds of a text if it holds of its parts.
structure Compositional (P : Bytes → Prop) : Prop where
  nil    : P []
  append : ∀ {s t}, P s → P t → P (s ++ t)
  char   : ∀ c ∈ punctuation, P [c]

variable {P : Bytes → Prop}

theorem Compositional.cons (hp : Compositional P) (hs : P s) (h : c ∈ punctuation := by decide) :
    P (c :: s) :=
  hp.append (hp.char c h) hs

theorem Compositional.enclose (hp : Compositional P) {d : UInt8} (hs : P s)
    (hc : c ∈ punctuation := by decide) (hd : d ∈ punctuation := by decide) :
    P (c :: (s ++ [d])) :=
  hp.cons (hp.append hs <| hp.char d hd) hc

theorem Compositional.member (hp : Compositional P) {k : Bytes} (hk : P k) (hs : P s) :
    P (34 :: (k ++ (34 :: 58 :: 32 :: s))) :=
  hp.cons <| hp.append hk <| hp.cons <| hp.cons <| hp.cons hs

theorem Compositional.comma (hp : Compositional P) (hs : P s) : P (44 :: 32 :: s) :=
  hp.cons <| hp.cons hs

mutual

-- A property that holds of the words and of the insides of strings holds of the whole text.
theorem print_forall (hp : Compositional P) : ∀ {t : Text}, t.Forall P P → P t.print
  | .word _, h   => h
  | .string _, h => hp.enclose h
  | .array _, h  => hp.enclose (printItems_forall hp h)
  | .object _, h => hp.enclose (printMembers_forall hp h)

theorem printItems_forall (hp : Compositional P) :
    ∀ {l : List Text}, Text.ForallItems P P l → P (Text.printItems l)
  | [], _          => hp.nil
  | [_], h         => print_forall hp h.left
  | _ :: _ :: _, h => hp.append (print_forall hp h.left) <| hp.comma <| printItems_forall hp h.right

theorem printMembers_forall (hp : Compositional P) :
    ∀ {m : List (Bytes × Text)}, Text.ForallMembers P P m → P (Text.printMembers m)
  | [], _          => hp.nil
  | [(_, _)], h    => hp.member h.left <| print_forall hp h.right.left
  | (_, _) :: (_, _) :: _, h => hp.member h.left <| hp.append (print_forall hp h.right.left) <|
    hp.comma <| printMembers_forall hp h.right.right

end

-- What holds of the parts of a text if it holds of the text.
def Separable (P : Bytes → Prop) : Prop :=
  ∀ {s t c}, c ∈ punctuation → P (s ++ c :: t) → P s ∧ P t

theorem Separable.tail (hp : Separable P) (h : P (c :: s)) (hc : c ∈ punctuation := by decide) :
    P s :=
  (hp (s := []) hc h).right

theorem Separable.enclose (hp : Separable P) {d : UInt8} (h : P (c :: (s ++ [d])))
    (hc : c ∈ punctuation := by decide) (hd : d ∈ punctuation := by decide) : P s :=
  (hp hd <| hp.tail h hc).left

theorem Separable.member (hp : Separable P) {k : Bytes}
    (h : P (34 :: (k ++ (34 :: 58 :: 32 :: s)))) : P k ∧ P s := by
  obtain ⟨hk, hs⟩ := hp (by decide) <| hp.tail h
  exact ⟨hk, hp.tail <| hp.tail hs⟩

theorem Separable.comma (hp : Separable P) (h : P (s ++ 44 :: 32 :: r)) : P s ∧ P r := by
  obtain ⟨hs, hr⟩ := hp (by decide) h
  exact ⟨hs, hp.tail hr⟩

mutual

theorem forall_print (hp : Separable P) : ∀ {t : Text}, P t.print → t.Forall P P
  | .word _, h   => h
  | .string _, h => hp.enclose h
  | .array _, h  => forall_printItems hp <| hp.enclose h
  | .object _, h => forall_printMembers hp <| hp.enclose h

theorem forall_printItems (hp : Separable P) :
    ∀ {l : List Text}, P (Text.printItems l) → Text.ForallItems P P l
  | [], _          => trivial
  | [_], h         => ⟨forall_print hp h, trivial⟩
  | _ :: _ :: _, h =>
    have hs := hp.comma h
    ⟨forall_print hp hs.left, forall_printItems hp hs.right⟩

theorem forall_printMembers (hp : Separable P) :
    ∀ {m : List (Bytes × Text)}, P (Text.printMembers m) → Text.ForallMembers P P m
  | [], _                    => trivial
  | [(_, _)], h              => ⟨(hp.member h).left, forall_print hp (hp.member h).right, trivial⟩
  | (_, _) :: (_, _) :: _, h =>
    have hm := hp.member h
    have hs := hp.comma hm.right
    ⟨hm.left, forall_print hp hs.left, forall_printMembers hp hs.right⟩

end

theorem print_iff (hc : Compositional P) (hs : Separable P) : P t.print ↔ t.Forall P P :=
  ⟨forall_print hs, print_forall hc⟩

mutual

theorem Text.Forall.imp {W R W' R' : Bytes → Prop} (hw : ∀ {w}, W w → W' w)
    (hr : ∀ {r}, R r → R' r) : ∀ {t : Text}, t.Forall W R → t.Forall W' R'
  | .word _, h   => hw h
  | .string _, h => hr h
  | .array _, h  => forallItems_imp hw hr h
  | .object _, h => forallMembers_imp hw hr h

theorem forallItems_imp {W R W' R' : Bytes → Prop} (hw : ∀ {w}, W w → W' w)
    (hr : ∀ {r}, R r → R' r) :
    ∀ {l : List Text}, Text.ForallItems W R l → Text.ForallItems W' R' l
  | [], _     => trivial
  | _ :: _, h => ⟨h.left.imp hw hr, forallItems_imp hw hr h.right⟩

theorem forallMembers_imp {W R W' R' : Bytes → Prop} (hw : ∀ {w}, W w → W' w)
    (hr : ∀ {r}, R r → R' r) :
    ∀ {m : List (Bytes × Text)}, Text.ForallMembers W R m → Text.ForallMembers W' R' m
  | [], _          => trivial
  | (_, _) :: _, h => ⟨hr h.left, h.right.left.imp hw hr, forallMembers_imp hw hr h.right.right⟩

end

end JsonText
