import Tyche.Cpp.Theorems.Answers
import Tyche.Rust.Theorems.Answers

-- In both modules a request returns a response that was received for it, if no request is registered
-- under the correlation id of a response that has been received but not looked up. In C++ the module
-- must not be stopped while a request waits for its response. In Rust it cannot be.
theorem requests_return_answers
    (as : List (Threads.Action Cpp.ModuleThread Cpp.ModuleTask Bool))
    (bs : List (Threads.Action Rust.ModuleThread Rust.ModuleTask Bool)) :
    ((Threads.machine Cpp.modules).Along (Threads.Meets Cpp.TycheModule.answered)
        (.start .start) as →
      (Threads.machine Cpp.modules).Always (fun t => t.shared.Real) (.start .start) as) ∧
    ((Threads.machine Rust.modules).Along (Threads.Meets Rust.Module.fresh) (.start .start) bs →
      (Threads.machine Rust.modules).Always (fun t => t.shared.Real) (.start .start) bs) :=
  ⟨Cpp.modules.always_real_of_answered, Rust.modules.always_real_of_fresh⟩

namespace Cpp.Sample

def moduleSteps (i : ModuleThread) (n : ℕ) : List (Threads.Action ModuleThread ModuleTask Bool) :=
  .replicate n <| .next i true

def moduleRequest : Threads.Action ModuleThread ModuleTask Bool :=
  .start (.caller 0) <| .request (utf8 "c") 2

def moduleResponse (payload : Payload) : Threads.Action ModuleThread ModuleTask Bool :=
  .start .receiver <| .receive <| .response payload <| some <| utf8 "c"

end Cpp.Sample

namespace Rust.Sample

def answer (c : String) : List (Threads.Action ModuleThread ModuleTask Bool) :=
  .start (.caller 0) (.request (utf8 c) 1) :: .replicate 14 (.next (.caller 0) true) ++
  .start .receiver (.receive <| .response (some <| utf8 c) .null) ::
    .replicate 9 (.next .receiver true) ++
  .replicate 9 (.next (.caller 0) true)

end Rust.Sample

-- A request gets its response, and then the module is stopped.
theorem requests_return_answers_sample :
    (Threads.machine Cpp.modules).Always (fun t => t.shared.Real) (.start .start) (
      Cpp.Sample.moduleRequest :: Cpp.Sample.moduleSteps (.caller 0) 5 ++
      Cpp.Sample.moduleResponse [] :: Cpp.Sample.moduleSteps .receiver 2 ++
      Cpp.Sample.moduleSteps (.caller 0) 3 ++
      .start (.stopper 0) .stop :: Cpp.Sample.moduleSteps (.stopper 0) 3) ∧
    (Threads.machine Rust.modules).Always (fun t => t.shared.Real) (.start .start) (
      Rust.Sample.answer "c" ++ [.start (.stopper 0) .stop] ++
      .replicate 22 (.next (.stopper 0) true)) := by
  have ⟨hc, hr⟩ := requests_return_answers
    (Cpp.Sample.moduleRequest :: Cpp.Sample.moduleSteps (.caller 0) 5 ++
      Cpp.Sample.moduleResponse [] :: Cpp.Sample.moduleSteps .receiver 2 ++
      Cpp.Sample.moduleSteps (.caller 0) 3 ++
      .start (.stopper 0) .stop :: Cpp.Sample.moduleSteps (.stopper 0) 3)
    (Rust.Sample.answer "c" ++ [.start (.stopper 0) .stop] ++
      .replicate 22 (.next (.stopper 0) true))
  exact ⟨hc <| by decide +kernel, hr <| by decide +kernel⟩

-- The module is stopped while a request waits, and returns an empty payload.
theorem not_requests_return_answers :
    ¬((∀ as t, (Threads.machine Cpp.modules).exec (.start .start) as = some t → t.shared.Real) ∧
      ∀ bs t, (Threads.machine Rust.modules).exec (.start .start) bs = some t →
        t.shared.Real) := by
  intro ⟨h, _⟩
  have hr : ∃ t ∈ (Threads.machine Cpp.modules).exec (.start .start) (
      Cpp.Sample.moduleRequest :: Cpp.Sample.moduleSteps (.caller 0) 5 ++
      .start (.stopper 0) .stop :: Cpp.Sample.moduleSteps (.stopper 0) 2 ++
      Cpp.Sample.moduleSteps (.caller 0) 3),
      t.shared.returned.map Prod.fst = [0] ∧ t.shared.received.map Prod.fst = [] := by
    decide +kernel
  obtain ⟨t, ht, hx, hn⟩ := hr
  obtain ⟨x, hx, _⟩ := List.mem_map.mp (hx ▸ List.mem_singleton_self 0)
  exact absurd (h _ t ht x hx) <| by simp [List.map_eq_nil_iff.mp hn]
