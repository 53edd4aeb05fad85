import Tyche.JsonCut
import Tyche.Python.Storage

namespace Python

open JsonText hiding hexDigit Value

attribute [local instance] jsonDialect

theorem distinct_jsonDialect : JsonText.Distinct where
  ne w hw := by
    change w ∈ [_, _, _] at hw
    simp only [List.mem_cons, List.not_mem_nil, or_false] at hw
    rcases hw with rfl | rfl | rfl <;> exact List.cons_ne_nil _ _
  read w hw s := by
    change w ∈ [_, _, _] at hw
    simp only [List.mem_cons, List.not_mem_nil, or_false] at hw
    rcases hw with rfl | rfl | rfl <;> rfl

mutual

theorem validUtf8_jsonText : ∀ {v : Value}, v.Decoded → v.Jsonable → v.IsText →
    (jsonText v).Forall ValidUtf8 ValidUtf8
  | .none, _, _, _     => isBare_null.validUtf8
  | .bool b, _, _, _   => (isBare_bool b).validUtf8
  | .int i, _, _, _    => (encodeInt_word i).right.left.validUtf8
  | .float .., h, _, _ => (encodeFloat_word h).right.left.validUtf8
  | .str _, _, _, ht   => validUtf8_escape <| isUtf8_iff.mp ht
  | .list _, h, hj, ht => validUtf8_jsonTexts h hj ht
  | .dict _, h, hj, ht => validUtf8_jsonEntries h.right hj ht

theorem validUtf8_jsonTexts : ∀ {l : List Value}, Value.DecodedItems l → Value.JsonableItems l →
    Value.IsTextItems l → Text.ForallItems ValidUtf8 ValidUtf8 (jsonTexts l)
  | [], _, _, _       => trivial
  | _ :: _, h, hj, ht =>
    ⟨validUtf8_jsonText h.left hj.left ht.left, validUtf8_jsonTexts h.right hj.right ht.right⟩

theorem validUtf8_jsonEntries : ∀ {es : List (Key × Value)}, Value.DecodedEntries es →
    Value.JsonableEntries es → Value.IsTextEntries es →
    Text.ForallMembers ValidUtf8 ValidUtf8 (jsonEntries es)
  | [], _, _, _                 => trivial
  | (.str k, _) :: _, h, hj, ht => ⟨validUtf8_escape <| isUtf8_iff.mp <| ht.left k rfl,
    validUtf8_jsonText h.left hj.right.left ht.right.left,
    validUtf8_jsonEntries h.right hj.right.right ht.right.right⟩

end

namespace StaticDataStorage

variable {dir dir' before : Directory} {c c' : Category} {category text : Bytes} {k : ℕ}
  {ops : List FileOp} {updatedAt : UpdatedAt} {data : DataSet} {v : Value}

theorem record_decoded : (record updatedAt data).Decoded := by
  refine ⟨?_, trivial, trivial, data.decoded, trivial⟩
  simp only [List.map_cons, List.map_nil]
  decide +kernel

theorem record_jsonable : (record updatedAt data).Jsonable :=
  ⟨⟨_, rfl⟩, trivial, ⟨_, rfl⟩, trivial, ⟨_, rfl⟩, data.jsonable, trivial⟩

theorem record_isText : (record updatedAt data).IsText := by
  refine ⟨?_, updatedAt.property, ?_, trivial, ?_, data.isText, trivial⟩ <;>
    exact fun s hs => by cases hs; exact isUtf8_utf8

theorem lexed_record : Lexed (jsonText <| record updatedAt data) :=
  lexed_of_plain <| jsonText_forall record_decoded record_jsonable

theorem isUtf8_dump : IsUtf8 (dump <| record updatedAt data) := by
  refine isUtf8_iff.mpr <| layout_forall compositional_validUtf8 (.ascii <| by simp) ?_
  exact validUtf8_jsonText record_decoded record_jsonable record_isText

theorem loads_dump : loads (dump <| record updatedAt data) =
    some (record updatedAt data).anonymous := by
  obtain ⟨w, hr, ho⟩ := read_jsonText (record_decoded : (record updatedAt data).Decoded)
    record_jsonable
  rw [loads, dump, parse_layout lexed_record, hr, Option.map_some, ho]

theorem read_dump : read (dump <| record updatedAt data) =
    .ok (record updatedAt data).anonymous := by
  rw [read, if_pos isUtf8_dump, loads_dump]

theorem dump_start : ∃ s, dump (record updatedAt data) = 123 :: s :=
  ⟨_, rfl⟩

-- What is cut off is not read.
theorem read_cut (h : k < (dump <| record updatedAt data).length) :
    read ((dump <| record updatedAt data).take k) = .error .valueError := by
  have hl : loads ((dump <| record updatedAt data).take k) = none := by
    obtain ⟨w, hr, -⟩ := read_jsonText (record_decoded : (record updatedAt data).Decoded)
      record_jsonable
    have hv := value_layout_all (n := 0) (lexed_record : Lexed <| jsonText <| record updatedAt data)
    rw [hr] at hv
    obtain ⟨s, hs⟩ : ∃ s, dump (record updatedAt data) = 123 :: s := dump_start
    rw [loads, Option.map_eq_none_iff]
    unfold dump at h hs ⊢
    rw [hs] at h hv ⊢
    refine parse_cut distinct_jsonDialect hv (List.take_prefix _ _) fun he => ?_
    have := congrArg List.length he
    rw [List.length_take] at this
    omega
  rw [read, hl, ite_self]

theorem ofName_name : ofName (name c) = some c := by
  cases c <;> decide +kernel

theorem name_ofName (h : ofName category = some c) : name c = category := by
  simpa using List.find?_some h

theorem mem_categories : c ∈ categories := by
  cases c <;> decide

theorem categories_nodup : categories.Nodup := by
  decide

-- What is written after a number of operations.
theorem run_fileOps_take (h : k ≤ text.length) :
    run ((fileOps c text).take (k + 1)) dir = Function.update dir c (some <| text.take k) := by
  induction k
  case zero      => rfl
  case succ k hi =>
    have hk : k < (text.map (FileOp.write c)).length := by
      rw [List.length_map]
      exact h
    have ht : text.take (k + 1) = text.take k ++ [text[k]] := (List.take_concat_get' _ _ _).symm
    unfold fileOps run at hi ⊢
    rw [List.take_succ_cons] at hi ⊢
    rw [← List.take_concat_get' _ _ hk, ← List.cons_append, List.foldl_append, hi (by omega),
      List.getElem_map]
    change Function.update _ c _ = _
    rw [Function.update_idem, Function.update_self, ht]
    rfl

theorem length_fileOps : (fileOps c text).length = text.length + 1 := by
  rw [fileOps, List.length_cons, List.length_map]

theorem run_fileOps : run (fileOps c text) dir = Function.update dir c (some text) := by
  have h : run ((fileOps c text).take (text.length + 1)) dir = _ := run_fileOps_take le_rfl
  rwa [← length_fileOps (c := c), List.take_length, List.take_length] at h

theorem run_append {ops' : List FileOp} : run (ops ++ ops') dir = run ops' (run ops dir) :=
  List.foldl_append

-- A directory that is left by saves that were completed.
inductive Completed : Directory → Prop
  | empty : Completed fun _ => none
  | save {dir : Directory} {ops : List FileOp} {updatedAt : UpdatedAt} {category : Bytes}
      {data : DataSet} : Completed dir → save updatedAt category data = .ok ops →
      Completed (run ops dir)

-- A file that is not there, or that is complete.
def Whole (file : Option Bytes) : Prop :=
  ∀ text ∈ file, ∃ updatedAt data, text = dump (record updatedAt data)

theorem whole_dump : Whole (some <| dump <| record updatedAt data) := by
  rintro _ ⟨⟩
  exact ⟨_, _, rfl⟩

theorem save_eq_ok (h : save updatedAt category data = .ok ops) : ∃ c, ofName category = some c ∧
    ops = fileOps c (dump <| record updatedAt data) := by
  unfold save at h
  split at h
  case h_1      => cases h
  case h_2 c hc => cases h; exact ⟨c, hc, rfl⟩

theorem whole_update (h : ∀ c, Whole (dir c)) :
    Whole (Function.update dir c (some <| dump <| record updatedAt data) c') := by
  by_cases hc : c' = c
  case pos => subst hc; rw [Function.update_self]; exact whole_dump
  case neg => rw [Function.update_of_ne hc]; exact h c'

theorem Completed.whole (h : Completed dir) : ∀ c, Whole (dir c) := by
  induction h
  case empty        => exact fun _ => nofun
  case save hs hi =>
    obtain ⟨c, -, rfl⟩ := save_eq_ok hs
    rw [run_fileOps]
    exact fun _ => whole_update hi

theorem load_none (h : dir c = none) : load dir (name c) = .ok none := by
  rw [load, ofName_name]
  dsimp only
  rw [h]

theorem load_some (h : dir c = some text) : load dir (name c) = (read text).map some := by
  rw [load, ofName_name]
  dsimp only
  rw [h]

theorem load_dump (h : dir c = some (dump <| record updatedAt data)) :
    load dir (name c) = .ok (some (record updatedAt data).anonymous) := by
  rw [load_some h, read_dump]
  rfl

theorem load_cut (h : dir c = some ((dump <| record updatedAt data).take k))
    (hk : k < (dump <| record updatedAt data).length) :
    load dir (name c) = .error .valueError := by
  rw [load_some h, read_cut hk]
  rfl

theorem cached_record : cached (some (record updatedAt data).anonymous) =
    .ok (.list <| Value.anonymousItems data.records) :=
  rfl

theorem Whole.load (h : Whole (dir c)) : ∃ v w, load dir (name c) = .ok v ∧ cached v = .ok w := by
  cases hc : dir c
  case none      => exact ⟨_, _, load_none hc, rfl⟩
  case some text =>
    obtain ⟨updatedAt, data, rfl⟩ := h text hc
    exact ⟨_, _, load_dump hc, cached_record⟩

theorem load_congr (h : dir c = dir' c) : load dir (name c) = load dir' (name c) := by
  rw [load, load, ofName_name]
  dsimp only
  rw [h]

theorem loadAll_eq {f : Category → Option Value} (h : ∀ c, load dir (name c) = .ok (f c)) :
    loadAll dir = .ok (categories.map fun c => (c, f c)) := by
  rw [loadAll, mapM_eq_ok, List.forall₂_map_right_iff, List.forall₂_same]
  intro c _
  rw [h]
  rfl

theorem load_of_loadAll {l : List (Category × Option Value)} (h : loadAll dir = .ok l) :
    ∃ v, load dir (name c) = .ok v := by
  have hl : List.Forall₂ (fun c _ => (∃ v, load dir (name c) = .ok v) ∧ True) categories l := by
    refine (mapM_eq_ok.mp h).imp fun c e he => ?_
    obtain ⟨v, hv, -⟩ := bind_eq_ok.mp he
    exact ⟨⟨v, hv⟩, trivial⟩
  exact ((List.forall₂_and_left categories l).mp hl).left c mem_categories

-- All categories can be loaded, each with what was there before or with what is new, and the module
-- can start.
def Survives (before after : Directory) (new : Category → Option Value) : Prop :=
  ∃ l cache, loadAll after = .ok l ∧ loadFromDisk after = .ok cache ∧ ∀ c v, (c, v) ∈ l →
    load before (name c) = .ok v ∨ ∃ w, new c = some w ∧ v = some w.anonymous

-- The interruption after some operations falls into one of the saves: after a file was opened and
-- before it is complete.
def Cut (saves : List (List FileOp)) (k : ℕ) : Prop :=
  ∃ done ops left, saves = done ++ ops :: left ∧
    done.flatten.length < k ∧ k < done.flatten.length + ops.length

theorem take_of_not_cut {saves : List (List FileOp)} (h : ¬Cut saves k) :
    ∃ done left, saves = done ++ left ∧ saves.flatten.take k = done.flatten := by
  induction saves generalizing k
  case nil               => exact ⟨[], [], rfl, List.take_nil⟩
  case cons ops saves hi =>
    by_cases hk : k < ops.length
    case pos =>
      have h0 : k = 0 := by
        by_contra h0
        exact h ⟨[], ops, saves, rfl, Nat.pos_of_ne_zero h0, by simpa using hk⟩
      exact ⟨[], ops :: saves, rfl, by rw [h0]; rfl⟩
    case neg =>
      have hc : ¬Cut saves (k - ops.length) := by
        rintro ⟨done, ops', left, rfl, hl, hu⟩
        refine h ⟨ops :: done, ops', left, rfl, ?_, ?_⟩ <;>
          rw [List.flatten_cons, List.length_append] <;> omega
      obtain ⟨done, left, rfl, ht⟩ := hi hc
      refine ⟨ops :: done, left, rfl, ?_⟩
      rw [List.flatten_cons, List.take_append, ht, List.take_of_length_le (by omega)]
      rfl

theorem take_of_cut {done left : List (List FileOp)} (hl : done.flatten.length < k)
    (hu : k < done.flatten.length + ops.length) :
    (done ++ ops :: left).flatten.take k = done.flatten ++ ops.take (k - done.flatten.length) := by
  rw [List.flatten_append, List.take_append, List.take_of_length_le (by omega),
    List.flatten_cons, List.take_append_of_le_length (by omega)]

theorem survives_of_load {after : Directory} {new : Category → Option Value}
    (h : ∀ c, ∃ v w, load after (name c) = .ok v ∧ cached v = .ok w ∧
      (load before (name c) = .ok v ∨ ∃ r, new c = some r ∧ v = some r.anonymous)) :
    Survives before after new := by
  choose f g hf hg ho using h
  have hl := loadAll_eq hf
  refine ⟨_, categories.map fun c => (c, g c), hl, ?_, fun c v hm => ?_⟩
  case refine_1 =>
    rw [loadFromDisk, hl]
    refine mapM_eq_ok.mpr ?_
    rw [List.forall₂_map_left_iff, List.forall₂_map_right_iff, List.forall₂_same]
    intro c _
    change (cached (f c) >>= fun w => .ok (c, w)) = _
    rw [hg]
    rfl
  case refine_2 =>
    obtain ⟨c, -, ⟨⟩⟩ := List.mem_map.mp hm
    exact ho c

theorem not_survives {after : Directory} {new : Category → Option Value} {e : Error}
    (h : load after (name c) = .error e) : ¬Survives before after new := by
  rintro ⟨l, -, hl, -⟩
  obtain ⟨v, hv⟩ := load_of_loadAll (c := c) hl
  rw [h] at hv
  cases hv

-- The save of a category, if there is something to save.
def opsOf (s : Category × Option (UpdatedAt × DataSet)) : List FileOp :=
  match s.2 with
  | none   => []
  | some r => fileOps s.1 <| dump <| record r.1 r.2

variable {saves : List (Category × Option (UpdatedAt × DataSet))} {new : Category → Option Value}

-- After some saves, a file is the one that was there before or has been written.
theorem run_saves : run (saves.map opsOf).flatten dir c = dir c ∨ ∃ r, (c, some r) ∈ saves ∧
    run (saves.map opsOf).flatten dir c = some (dump <| record r.1 r.2) := by
  induction saves generalizing dir
  case nil             => exact .inl rfl
  case cons s saves hi =>
    rw [List.map_cons, List.flatten_cons, run_append]
    rcases @hi (run (opsOf s) dir) with h | ⟨r, hr, h⟩
    case inr => exact .inr ⟨r, .tail _ hr, h⟩
    case inl =>
      rw [h]
      obtain ⟨c', _ | r⟩ := s
      case none => exact .inl rfl
      case some =>
        change run (fileOps c' _) dir c = _ ∨ ∃ r, _ ∧ run (fileOps c' _) dir c = _
        rw [run_fileOps]
        by_cases hc : c = c'
        case neg => exact .inl <| Function.update_of_ne hc _ _
        case pos =>
          subst hc
          exact .inr ⟨r, .head _, Function.update_self _ _ _⟩

theorem survives_of_not_cut (hb : ∀ c, Whole (before c))
    (hn : ∀ c r, (c, some r) ∈ saves → new c = some (record r.1 r.2))
    (h : ¬Cut (saves.map opsOf) k) :
    Survives before (run ((saves.map opsOf).flatten.take k) before) new := by
  obtain ⟨done, left, hs, ht⟩ := take_of_not_cut h
  obtain ⟨done, left, rfl, rfl, -⟩ := List.map_eq_append_iff.mp hs
  rw [ht]
  refine survives_of_load fun c => ?_
  have hr : run (done.map opsOf).flatten before c = _ ∨ _ := run_saves
  rcases hr with hr | ⟨r, hm, hr⟩
  case inl =>
    obtain ⟨v, w, hv, hw⟩ := (hb c).load
    exact ⟨v, w, (load_congr hr).trans hv, hw, .inl hv⟩
  case inr =>
    exact ⟨_, _, load_dump hr, cached_record, .inr ⟨_, hn c r <| List.mem_append_left _ hm, rfl⟩⟩

theorem not_survives_of_cut (h : Cut (saves.map opsOf) k) :
    ¬Survives before (run ((saves.map opsOf).flatten.take k) before) new := by
  obtain ⟨done, ops, left, hs, hl, hu⟩ := h
  rw [hs, take_of_cut hl hu, run_append]
  have hm : ops ∈ saves.map opsOf := hs ▸ List.mem_append_right _ (.head _)
  obtain ⟨⟨c, _ | r⟩, -, rfl⟩ := List.mem_map.mp hm
  case none =>
    exact absurd hu <| by simpa [opsOf] using Nat.le_of_lt hl
  case some =>
    change k < _ + (fileOps c _).length at hu
    rw [length_fileOps] at hu
    obtain ⟨j, hj⟩ : ∃ j, k - done.flatten.length = j + 1 := ⟨k - done.flatten.length - 1, by omega⟩
    rw [hj]
    have hk : j < (dump <| record r.1 r.2).length := by omega
    refine not_survives (c := c) (e := .valueError) <| load_cut ?_ hk
    change run ((fileOps c _).take (j + 1)) _ c = _
    rw [run_fileOps_take (Nat.le_of_lt hk), Function.update_self]

theorem saveOps_eq {now : Category → UpdatedAt} {data : Dict Bytes DataSet} :
    saveOps now data c = opsOf (c, (data.get? <| name c).map (now c, ·)) := by
  unfold saveOps opsOf
  cases data.get? (name c) <;> rfl

theorem saveAll_survives_iff {now : Category → UpdatedAt} {data : Dict Bytes DataSet}
    (h : Completed before) : Survives before (run ((saveAll now data).take k) before)
      (fun c => (data.get? <| name c).map (record <| now c)) ↔
        ¬Cut (categories.map <| saveOps now data) k := by
  let saves := categories.map fun c => (c, (data.get? <| name c).map (now c, ·))
  have hs : categories.map (saveOps now data) = saves.map opsOf := by
    rw [List.map_map]
    exact List.map_congr_left fun c _ => saveOps_eq
  rw [saveAll, List.flatMap_def, hs]
  refine ⟨fun hv hc => not_survives_of_cut hc hv, survives_of_not_cut h.whole fun c r hm => ?_⟩
  obtain ⟨c, -, he⟩ := List.mem_map.mp hm
  cases hd : data.get? (name c)
  case none   => rw [hd] at he; cases he
  case some d => rw [hd] at he; cases he; rw [hd]; rfl

theorem save_survives_iff (h : Completed before) (hs : save updatedAt category data = .ok ops) :
    Survives before (run (ops.take k) before)
      (fun c => if name c = category then some (record updatedAt data) else none) ↔
        ¬Cut [ops] k := by
  obtain ⟨c, hc, rfl⟩ := save_eq_ok hs
  have ho : [fileOps c <| dump <| record updatedAt data] =
      [(c, some (updatedAt, data))].map opsOf := rfl
  have hf : fileOps c (dump <| record updatedAt data) =
      ([(c, some (updatedAt, data))].map opsOf).flatten := List.flatten_singleton.symm
  rw [ho, hf]
  refine ⟨fun hv hc => not_survives_of_cut hc hv, survives_of_not_cut h.whole fun c r hm => ?_⟩
  cases List.mem_singleton.mp hm
  exact if_pos <| name_ofName hc

-- A crash is survived if it does not fall between the opening of a file and its last byte.
theorem survives_iff (h : Completed before) :
    (∀ now data k, Survives before (run ((saveAll now data).take k) before)
      (fun c => (data.get? <| name c).map (record <| now c)) ↔
        ¬Cut (categories.map <| saveOps now data) k) ∧
    ∀ updatedAt category data ops k, save updatedAt category data = .ok ops →
      (Survives before (run (ops.take k) before)
        (fun c => if name c = category then some (record updatedAt data) else none) ↔
          ¬Cut [ops] k) :=
  ⟨fun _ _ _ => saveAll_survives_iff h, fun _ _ _ _ _ hs => save_survives_iff h hs⟩

namespace Sample

def time : UpdatedAt :=
  ⟨utf8 "2025-05-30T00:00:00+00:00", isUtf8_utf8⟩

def noData : DataSet :=
  ⟨[], trivial, trivial, trivial⟩

def products : List FileOp :=
  fileOps .products <| dump <| record time noData

theorem completed : Completed (run products fun _ => none) :=
  have hs : save time (utf8 "products") noData = .ok products := rfl
  .save .empty hs

end Sample

theorem survives_iff_completed :
    (∀ now data k, Survives (run Sample.products fun _ => none)
      (run ((saveAll now data).take k) <| run Sample.products fun _ => none)
      (fun c => (data.get? <| name c).map (record <| now c)) ↔
        ¬Cut (categories.map <| saveOps now data) k) ∧
    ∀ updatedAt category data ops k, save updatedAt category data = .ok ops →
      (Survives (run Sample.products fun _ => none)
        (run (ops.take k) <| run Sample.products fun _ => none)
        (fun c => if name c = category then some (record updatedAt data) else none) ↔
          ¬Cut [ops] k) :=
  survives_iff Sample.completed

-- The process ends after the file of the first category was opened.
theorem not_survives_open : ¬∀ before, Completed before → ∀ now data k,
    Survives before (run ((saveAll now data).take k) before)
      fun c => (data.get? <| name c).map (record <| now c) := by
  intro h
  have hs := h _ Sample.completed (fun _ => Sample.time)
    ⟨[(utf8 "markets", Sample.noData)], List.nodup_singleton _⟩ 1
  refine (saveAll_survives_iff Sample.completed).mp hs ⟨[], _, _, rfl, Nat.one_pos, ?_⟩
  rw [List.flatten_nil, List.length_nil, Nat.zero_add]
  change 1 < (fileOps _ _).length
  rw [length_fileOps]
  exact Nat.succ_lt_succ <| Nat.succ_pos _

end StaticDataStorage

end Python
