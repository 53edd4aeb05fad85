import Tyche.Cpp.FrameObjects
import Tyche.Cpp.Theorems.Frames

namespace Cpp.Frames.Frame

open Objects

variable {f g : Frame} {a b dst src : Bytes} {n : ℕ} {ι : Type}

theorem load_take (h : n ≤ src.length) : Memory.load src 0 n = some (src.take n) := by
  rw [Memory.load, if_pos (by omega), List.drop_zero]

theorem memcpy?_eq (hs : n ≤ src.length) (hd : n ≤ dst.length) :
    memcpy? dst src n = some (memcpy dst (src.take n)) := by
  have hl : (src.take n).length ≤ dst.length := by
    rw [List.length_take]
    omega
  rw [memcpy?, load_take hs]
  exact Memory.store_zero hl

theorem length_memcpy (h : src.length ≤ dst.length) : (memcpy dst src).length = dst.length := by
  rw [memcpy, List.length_append, List.length_drop]
  omega

-- What can be seen of a frame with these bytes.
structure Keeps (f : Frame) (b : Bytes) : Prop where
  data : f.bytes = some b
  size : f.byteSize = b.length

-- The buffer is of full size, whether it is used or not.
structure Holds (f : Frame) (b : Bytes) : Prop where
  stores : f.Stores b
  buffer : f.ssoBuf.length = SSO_SIZE

theorem length_le_of_take (h : src.take b.length = b) : b.length ≤ src.length := by
  have hl := congrArg List.length h
  rw [List.length_take] at hl
  omega

namespace Stores

-- There are as many bytes as the size says.
theorem array (h : f.Stores b) : ∃ mem, f.data = some mem ∧ f.byteSize = b.length ∧
    Memory.load mem 0 b.length = some b := by
  cases h
  case inline h size buf =>
    have hm := ofNat_ne_marker h
    refine ⟨f.ssoBuf, by rw [data, size, if_neg hm], ?_, ?_⟩
    case refine_1 => rw [byteSize, size, if_neg hm, toNat_ofNat h]
    case refine_2 => rw [load_take (length_le_of_take buf), buf]
  case heap size ptr len =>
    refine ⟨b, by rw [data, if_pos size, ptr], by rw [byteSize, if_pos size, len], ?_⟩
    rw [load_take le_rfl, List.take_length]

theorem keeps (h : f.Stores b) : f.Keeps b := by
  obtain ⟨mem, hd, hs, hl⟩ := h.array
  refine ⟨?_, hs⟩
  rw [bytes, hd, hs]
  exact hl

theorem equal (hf : f.Stores a) (hg : g.Stores b) : f.equal g = some (decide (a = b)) := by
  obtain ⟨m, hd, hs, hl⟩ := hf.array
  obtain ⟨m', hd', hs', hl'⟩ := hg.array
  rw [Frame.equal, hd, hd', hs, hs']
  split
  case isTrue h  => rw [decide_eq_false fun he : a = b => h <| congrArg List.length he]
  case isFalse h =>
    change (Memory.load m 0 a.length >>= fun a' => Memory.load m' 0 a.length >>= fun b' =>
      some (decide (a' = b'))) = _
    rw [hl, not_not.mp h, hl']
    rfl

end Stores

-- Copying and moving are the same for the frame that gets the bytes.
theorem copyFrom_eq (hf : f.ssoBuf.length = SSO_SIZE) (hg : g.Stores b) :
    f.copyFrom g = some (f.moveAssign g) := by
  cases hg
  case inline h size buf =>
    have hm := ofNat_ne_marker h
    have hc := memcpy?_eq (length_le_of_take buf) (hf ▸ h)
    rw [copyFrom, moveAssign, size, if_neg hm, if_neg hm, toNat_ofNat h, hc]
    rfl
  case heap size ptr len =>
    have hc : memcpy? (.replicate b.length 0) b b.length = some b := by
      rw [memcpy?_eq le_rfl (List.length_replicate ..).ge, List.take_length, memcpy,
        List.drop_eq_nil_of_le (List.length_replicate ..).le, List.append_nil]
    rw [copyFrom, moveAssign, if_pos size, if_pos size, ptr, len]
    change (memcpy? (.replicate b.length 0) b b.length >>= _) = _
    rw [hc]
    rfl

-- Besides, what has been moved from is empty.
theorem moveFrom_eq (hf : f.ssoBuf.length = SSO_SIZE) (hg : g.Holds b) :
    ∃ g', f.moveFrom g = some (f.moveAssign g, g') ∧ g'.Holds [] := by
  obtain ⟨hs, hb⟩ := hg
  cases hs
  case inline h size buf =>
    have hm := ofNat_ne_marker h
    have hc := memcpy?_eq (length_le_of_take buf) (hf ▸ h)
    rw [moveFrom, moveAssign, size, if_neg hm, if_neg hm, toNat_ofNat h, hc]
    exact ⟨_, rfl, .inline (Nat.zero_le _) rfl rfl, hb⟩
  case heap size ptr len =>
    rw [moveFrom, moveAssign, if_pos size, if_pos size]
    exact ⟨_, rfl, .inline (Nat.zero_le _) rfl rfl, hb⟩

namespace Holds

theorem moveAssign (hf : f.ssoBuf.length = SSO_SIZE) (hg : g.Holds b) :
    (f.moveAssign g).Holds b := by
  refine ⟨hg.stores.moveAssign, ?_⟩
  cases hg.stores
  case inline h size buf =>
    have hm := ofNat_ne_marker h
    rw [Frame.moveAssign, size, if_neg hm, toNat_ofNat h, buf]
    exact (length_memcpy <| hf ▸ h).trans hf
  case heap size _ _ =>
    rw [Frame.moveAssign, if_pos size]
    exact hf

theorem new : (new b).Holds b := by
  refine ⟨new_stores, ?_⟩
  rw [Frame.new]
  split
  case isTrue h  =>
    exact (length_memcpy <| h.trans_eq List.length_replicate.symm).trans List.length_replicate
  case isFalse h => exact List.length_replicate

end Holds

theorem length_empty : empty.ssoBuf.length = SSO_SIZE :=
  List.length_replicate

theorem represents : objects.Represents [] Holds where
  construct _ := ⟨_, rfl, .new⟩
  copyConstruct _ _ hg := ⟨_, copyFrom_eq length_empty hg.stores, .moveAssign length_empty hg⟩
  moveConstruct _ _ hg := by
    obtain ⟨g', hm, hl⟩ := moveFrom_eq length_empty hg
    exact ⟨_, g', hm, .moveAssign length_empty hg, hl⟩
  copyAssign _ _ _ _ hf hg := ⟨_, copyFrom_eq hf.buffer hg.stores, .moveAssign hf.buffer hg⟩
  copyAssignSelf f _ hf := ⟨f, rfl, hf⟩
  moveAssign _ _ _ _ hf hg := by
    obtain ⟨g', hm, hl⟩ := moveFrom_eq hf.buffer hg
    exact ⟨_, g', hm, .moveAssign hf.buffer hg, hl⟩
  moveAssignSelf f _ hf := ⟨f, f, rfl, hf⟩

-- Frames against the bytes that they were last given.
structure Faithful (m : Store ι Frame) (v : Store ι Bytes) : Prop where
  keeps : ∀ i, Option.Rel Keeps (m i) (v i)
  equal : ∀ i j f g a b, m i = some f → m j = some g → v i = some a → v j = some b →
    f.equal g = some (decide (a = b))

theorem faithful_of_stand {m : Store ι Frame} {v : Store ι Bytes} (h : Stand Holds m v) :
    Faithful m v where
  keeps i := rel_mono (fun _ _ hf => hf.stores.keeps) (h i)
  equal i j f g a b hf hg ha hb := by
    have hi := h i
    have hj := h j
    rw [hf, ha, Option.rel_some_some] at hi
    rw [hg, hb, Option.rel_some_some] at hj
    exact hi.stores.equal hj.stores

-- Whatever is done with frames, they have the bytes that values have of which moving leaves none.
theorem keeps_bytes [DecidableEq ι] (os : List (Op ι Bytes)) : Option.Rel Faithful
    ((objects.machine ι).exec .empty os) (((values []).machine ι).exec .empty os) :=
  rel_mono (fun _ _ => faithful_of_stand) <| represents.exec .empty

end Cpp.Frames.Frame
