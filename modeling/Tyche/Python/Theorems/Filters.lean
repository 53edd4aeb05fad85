import Tyche.Python.Filters

theorem List.foldl_append_ite {α : Type*} {q : α → Bool} {l acc : List α} :
    l.foldl (fun r a => if q a then r ++ [a] else r) acc = acc ++ l.filter q := by
  induction l generalizing acc
  case nil         => rw [List.foldl_nil, List.filter_nil, List.append_nil]
  case cons a l hi =>
    rw [List.foldl_cons, hi, List.filter_cons]
    split
    case isTrue  => rw [List.append_assoc, List.singleton_append]
    case isFalse => rfl

namespace Python.StaticDataModule

variable {p : Printing} {data : List Record} {filters : Filters} {f g : Bytes} {a b v x : Value}
  {item : Record} {vs : List Value} {es : List (Bytes × Value)}

-- Whether a record passes the filter of one field.
def passes (p : Printing) (field : Bytes) (value : Value) (item : Record) : Bool :=
  match item.getD field .none with
  | .none     => false
  | itemValue => accepts p value itemValue

theorem isMatch_cons : isMatch p item ((f, a) :: es) = (passes p f a item && isMatch p item es) := by
  rw [isMatch, passes]
  cases item.getD f .none <;> try rfl
  all_goals
    dsimp only
    split
    case isTrue h  => rw [h, Bool.true_and]
    case isFalse h => rw [Bool.eq_false_of_not_eq_true h, Bool.false_and]

theorem applyFilters_eq :
    applyFilters p data filters = data.filter (isMatch p · filters.entries) := by
  rw [applyFilters]
  split
  case isTrue h  =>
    rw [List.isEmpty_iff.mp h]
    exact (List.filter_eq_self.mpr fun _ _ => rfl).symm
  case isFalse h => rw [List.foldl_append_ite, List.nil_append]

theorem applyFilters_sublist : (applyFilters p data filters).Sublist data :=
  applyFilters_eq ▸ List.filter_sublist

theorem query_sublist {fieldNames : List Bytes} {payload : List (Key × Value)} :
    (query p fieldNames data payload).Sublist data :=
  applyFilters_sublist

-- The filters of one field and of two fields.
def filter (field : Bytes) (value : Value) : Filters :=
  (∅ : Filters).set field value

def filter₂ (f : Bytes) (a : Value) (g : Bytes) (b : Value) : Filters :=
  (filter f a).set g b

theorem filter_entries : (filter f a).entries = [(f, a)] :=
  Dict.set_entries_of_not_mem Dict.not_mem_empty

theorem filter₂_entries (h : f ≠ g) : (filter₂ f a g b).entries = [(f, a), (g, b)] := by
  have hg : g ∉ filter f a := by
    rw [Dict.mem_def, Dict.keys, filter_entries]
    simpa using h.symm
  rw [filter₂, Dict.set_entries_of_not_mem hg, filter_entries]
  rfl

theorem applyFilters_filter : applyFilters p data (filter f a) = data.filter (passes p f a) := by
  rw [applyFilters_eq, filter_entries]
  refine List.filter_congr fun item _ => ?_
  rw [isMatch_cons, isMatch, Bool.and_true]

theorem applyFilters_filter₂ (h : f ≠ g) : applyFilters p data (filter₂ f a g b) =
    data.filter fun item => passes p f a item && passes p g b item := by
  rw [applyFilters_eq, filter₂_entries h]
  refine List.filter_congr fun item _ => ?_
  rw [isMatch_cons, isMatch_cons, isMatch, Bool.and_true]

-- Two filters are one after the other.
theorem applyFilters_applyFilters (h : f ≠ g) : applyFilters p data (filter₂ f a g b) =
    applyFilters p (applyFilters p data (filter f a)) (filter g b) := by
  rw [applyFilters_filter₂ h, applyFilters_filter, applyFilters_filter, List.filter_filter]
  exact List.filter_congr fun _ _ => Bool.and_comm ..

theorem applyFilters_comm (h : f ≠ g) : applyFilters p data (filter₂ f a g b) =
    applyFilters p (applyFilters p data (filter g b)) (filter f a) := by
  rw [applyFilters_filter₂ h, applyFilters_filter, applyFilters_filter, List.filter_filter]

-- What the values of a field are to a list and to its items: they are equal to some item if they are
-- what some item would let pass.
def Coincide (p : Printing) (vs : List Value) (x : Value) : Prop :=
  x ≠ .none → ((∃ v ∈ vs, x.same v) ↔ ∃ v ∈ vs, accepts p v x)

theorem passes_iff : passes p f a item ↔ item.getD f .none ≠ .none ∧
    accepts p a (item.getD f .none) := by
  rw [passes]
  cases item.getD f .none <;> simp

theorem passes_list_iff : passes p f (.list vs) item ↔ item.getD f .none ≠ .none ∧
    ∃ v ∈ vs, (item.getD f .none).same v := by
  rw [passes_iff, accepts, List.any_eq_true]

theorem union_iff : (passes p f (.list vs) item ↔ ∃ v ∈ vs, passes p f v item) ↔
    Coincide p vs (item.getD f .none) := by
  rw [passes_list_iff]
  simp only [passes_iff, Coincide]
  by_cases h : item.getD f .none = .none
  case pos => simp [h]
  case neg => simp [h]

theorem same_str {s : Bytes} : x.same (.str s) ↔ x = .str s := by
  cases x
  case str t       => simp [Value.same, Value.hash]
  case float y o   => cases y <;> simp [Value.same, Value.hash, Key.ofFloating]
  case decimal y o => cases y <;> simp [Value.same, Value.hash, Key.ofFloating]
  all_goals simp [Value.same, Value.hash]

theorem accepts_str {s : Bytes} : accepts p (.str s) x ↔ x.text p = s :=
  decide_eq_true_iff

-- A list of strings is only misunderstood where the text of another value is one of them.
theorem coincide_strings {ss : List Bytes} :
    Coincide p (ss.map .str) x ↔ (x ≠ .none → x.text p ∈ ss → ∃ s, x = .str s) := by
  simp only [Coincide, List.mem_map, exists_exists_and_eq_and, same_str, accepts_str]
  refine forall_congr' fun _ => ⟨fun h ht => ?_, fun h => ⟨?_, ?_⟩⟩
  case refine_1 =>
    obtain ⟨s, -, hx⟩ := h.mpr ⟨_, ht, rfl⟩
    exact ⟨s, hx⟩
  case refine_2 =>
    rintro ⟨s, hs, rfl⟩
    exact ⟨s, hs, rfl⟩
  case refine_3 =>
    rintro ⟨s, hs, rfl⟩
    obtain ⟨s, rfl⟩ := h hs
    exact ⟨s, hs, rfl⟩

-- What the filters of a list of records are expected to do.
structure Lawful (p : Printing) (data : List Record) (field : Bytes) (vs : List Value) : Prop where
  sublist : ∀ filters, (applyFilters p data filters).Sublist data
  union   : ∀ item ∈ data, item ∈ applyFilters p data (filter field <| .list vs) ↔
    ∃ v ∈ vs, item ∈ applyFilters p data (filter field v)
  compose : ∀ f g a b, f ≠ g →
    applyFilters p data (filter₂ f a g b) =
        applyFilters p (applyFilters p data <| filter f a) (filter g b) ∧
      applyFilters p data (filter₂ f a g b) =
        applyFilters p (applyFilters p data <| filter g b) (filter f a)

theorem mem_applyFilters (h : item ∈ data) :
    item ∈ applyFilters p data (filter f a) ↔ passes p f a item := by
  rw [applyFilters_filter, List.mem_filter, and_iff_right h]

theorem lawful_iff (p : Printing) (data : List Record) (field : Bytes) (vs : List Value) :
    Lawful p data field vs ↔ ∀ item ∈ data, Coincide p vs (item.getD field .none) := by
  have hu : (∀ item ∈ data, item ∈ applyFilters p data (filter field <| .list vs) ↔
      ∃ v ∈ vs, item ∈ applyFilters p data (filter field v)) ↔
        ∀ item ∈ data, Coincide p vs (item.getD field .none) := by
    refine forall₂_congr fun item hm => ?_
    simp only [mem_applyFilters hm]
    exact union_iff
  constructor
  case mp  => exact fun h => hu.mp h.union
  case mpr => exact fun h => {
    sublist         := fun _ => applyFilters_sublist
    union           := hu.mpr h
    compose f g _ _ := fun hf => ⟨applyFilters_applyFilters hf, applyFilters_comm hf⟩
  }

namespace Sample

def printing : Printing where
  isNegative _ := false
  repr s       := utf8 "'" ++ s ++ utf8 "'"
  other _      := []
  otherKey _   := []

-- A record whose class is a number.
def product : Record :=
  ⟨[(utf8 "ProductID", .str <| utf8 "au"), (utf8 "ProductClass", .int 1)], by simp; decide⟩

end Sample

-- The class is asked for by its text, which finds the record if it is not inside of a list.
theorem not_lawful_number : ¬∀ p data field vs, Lawful p data field vs := by
  intro h
  have hu := (h Sample.printing [Sample.product] (utf8 "ProductClass") [.str <| utf8 "1"]).union
    Sample.product (.head _)
  rw [mem_applyFilters (.head _)] at hu
  have hs : passes Sample.printing (utf8 "ProductClass") (.str <| utf8 "1") Sample.product := by
    decide +kernel
  have hl := hu.mpr ⟨_, .head _, (mem_applyFilters (.head _)).mpr hs⟩
  exact absurd hl <| by decide +kernel

end Python.StaticDataModule
