import Tyche.Cpp.Theorems.Requests
import Tyche.Python.Theorems.Requests

namespace Python.Requests

-- The operations of a request spare the entries of the others, and it leaves none of its own.
def Tidy (s : Module) (i : Bytes) (event : Option Bytes) (payload : Obj) (x : Surroundings) : Prop :=
  (requestEvent i event payload).All (Op.Spares (.str i)) ∧ LeavesNothing s i event payload x

end Python.Requests

namespace Cpp

def Tidy (s : TycheModule) (c : Bytes) (wakeUps : ℕ) (works : Bool) : Prop :=
  (requestEvent c wakeUps).All (ModuleOp.Spares c) ∧ LeavesNothing s c wakeUps works

end Cpp

-- In both modules a request leaves the table of pending requests as it was, whatever the other
-- threads do, unless it fails after it was registered and before or while it waits.
theorem requests_tidy_iff (s : Python.Requests.Module) (i : Bytes) (event : Option Bytes)
    (payload : Python.Obj) (x : Python.Requests.Surroundings) (t : Cpp.TycheModule) (c : Bytes)
    (wakeUps : ℕ) (works : Bool) (hs : .str i ∉ s.pendingRequests) (ht : c ∉ t.pendingRequests) :
    (Python.Requests.Tidy s i event payload x ↔ (s.connected →
      Python.Requests.Encodes s.moduleId i event payload ∧ x.sends ∧ x.waits ≠ .refused)) ∧
    (Cpp.Tidy t c wakeUps works ↔ (t.connected ∧ t.running → works)) :=
  ⟨(and_iff_right Python.Requests.all_spares).trans <| Python.Requests.leavesNothing_iff hs,
    (and_iff_right Cpp.all_spares).trans <| Cpp.leavesNothing_iff ht⟩

namespace Python.Sample

def connected : Requests.Module where
  moduleId        := utf8 "m"
  connected       := true
  pendingRequests := ∅
  result _        := .none
  isSet _         := false
  created         := 0

end Python.Sample

theorem requests_tidy_sample :
    Python.Requests.Tidy Python.Sample.connected (utf8 "c") (some <| utf8 "t") (.dict [])
      ⟨true, .elapses⟩ ∧ Cpp.Tidy .start (utf8 "c") 0 true := by
  have h := requests_tidy_iff Python.Sample.connected (utf8 "c") (some <| utf8 "t") (.dict [])
    ⟨true, .elapses⟩ .start (utf8 "c") 0 true Dict.not_mem_empty Dict.not_mem_empty
  exact ⟨h.left.mpr fun _ => ⟨⟨rfl, by decide +kernel⟩, rfl, by decide⟩, h.right.mpr fun _ => rfl⟩

-- The payload of a request cannot be packed.
theorem not_requests_tidy : ¬((∀ (s : Python.Requests.Module) (i : Bytes) (event : Option Bytes)
    (payload : Python.Obj) (x : Python.Requests.Surroundings), .str i ∉ s.pendingRequests →
      Python.Requests.Tidy s i event payload x) ∧
    ∀ (t : Cpp.TycheModule) (c : Bytes) (wakeUps : ℕ) (works : Bool), c ∉ t.pendingRequests →
      Cpp.Tidy t c wakeUps works) := by
  rintro ⟨h, -⟩
  have ht := h Python.Sample.connected (utf8 "c") (some <| utf8 "t") .other ⟨true, .elapses⟩
    Dict.not_mem_empty
  have he := (Python.Requests.leavesNothing_iff Dict.not_mem_empty).mp ht.right rfl
  exact absurd he.left.right <| by decide +kernel
