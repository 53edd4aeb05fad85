import Tyche.Threads

namespace Proc

variable {Op Op' : Type → Type} {ε α : Type}

-- Each call of an operation is replaced by a program.
def subst (f : ∀ {β}, Op β → Proc Op' ε β) : Proc Op ε α → Proc Op' ε α
  | done r    => done r
  | call op k => (f op).after fun r => (k r).subst f

end Proc

-- A socket that takes messages frame by frame. The owner has sent the first frame of the message
-- that is not complete yet. The log tells which messages were to be sent.
structure Multipart (ι φ : Type) where
  part  : List φ
  owner : Option ι
  sent  : List (List φ)
  calls : List (List φ)

namespace Multipart

open Threads

variable {Op : Type → Type} {ε σ ι κ ξ φ α β : Type}

def start : Multipart ι φ where
  part  := []
  owner := none
  sent  := []
  calls := []

inductive Send (φ : Type) : Type → Type
  | frame (f : φ) (more : Bool) : Send φ Unit

def call (s : Multipart ι φ) (fs : List φ) : Multipart ι φ :=
  { s with calls := s.calls ++ [fs] }

def send (s : Multipart ι φ) (i : ι) (f : φ) : (more : Bool) → Multipart ι φ
  | true  => { s with part := s.part ++ [f], owner := s.owner.or (some i) }
  | false => { s with part := [], owner := none, sent := s.sent ++ [s.part ++ [f]] }

-- The operations of a program that sends frames to a socket.
abbrev Sending (Op : Type → Type) (φ β : Type) : Type :=
  Op β ⊕ Send φ β

def sendMultipart : List φ → Proc (Sending Op φ) ε Unit
  | []      => pure ()
  | f :: fs => do
    .op <| .inr <| .frame f !fs.isEmpty
    sendMultipart fs

-- An operation that is to send a message and succeeds is followed by the frames.
def byFrames (frames : ∀ {β}, Op β → Option (List φ)) (o : Op α) : Proc (Sending Op φ) ε α := do
  let a ← .op <| .inl o
  sendMultipart <| (frames o).getD []
  return a

-- A system whose threads share a socket, to which they send messages frame by frame.
def system (S : System Op ε σ ι κ ξ) (frames : ∀ {β}, Op β → Option (List φ)) :
    System (Sending Op φ) ε (σ × Multipart ι φ) ι κ ξ where
  enter i k s := (S.enter i k s.1).map fun (s', p) => ((s', s.2), p.subst (byFrames frames))
  exec i x o s :=
    match o with
    | .inl o               =>
      (S.exec i x o s.1).map fun
        | (.ok a, s')    => (.ok a, s', (frames o).elim s.2 s.2.call)
        | (.error e, s') => (.error e, s', s.2)
    | .inr (.frame f more) => some (.ok (), s.1, s.2.send i f more)

-- No thread sends a frame while another one is in the middle of a message.
def alone : Condition (Sending Op φ) (σ × Multipart ι φ) ι κ ξ where
  enter _ _ _    := True
  exec i _ _ o s :=
    match o with
    | .inl _ => True
    | .inr _ => ∀ j ∈ s.2.owner, j = i

instance [DecidableEq ι] {i : ι} {k : κ} {s : σ × Multipart ι φ} :
    Decidable ((alone : Condition (Sending Op φ) (σ × Multipart ι φ) ι κ ξ).enter i k s) :=
  isTrue trivial

instance [DecidableEq ι] {i : ι} {k : Option κ} {x : ξ} {s : σ × Multipart ι φ} :
    ∀ o : Sending Op φ α, Decidable (alone.exec i k x o s)
  | .inl _ => isTrue trivial
  | .inr _ => inferInstanceAs <| Decidable (∀ _ ∈ _, _)

-- Every message that left the socket is one that was to be sent.
def Intact (s : Multipart ι φ) : Prop :=
  ∀ m ∈ s.sent, m ∈ s.calls

instance [DecidableEq φ] {s : Multipart ι φ} : Decidable s.Intact :=
  inferInstanceAs <| Decidable (∀ _ ∈ _, _)

variable [DecidableEq ι]

-- The frames of its message that a thread has sent and those that it has yet to send. Only the
-- owner has sent some.
structure Inv (s : Multipart ι φ) (v : ι → List φ × List φ) : Prop where
  intact : s.Intact
  part   : s.owner = none → s.part = []
  begun  : ∀ i, (v i).1 = if s.owner = some i then s.part else []
  called : ∀ i, (v i).2 ≠ [] → (v i).1 ++ (v i).2 ∈ s.calls

theorem inv_start : (start : Multipart ι φ).Inv fun _ => ([], []) where
  intact _ h := absurd h List.not_mem_nil
  part _     := rfl
  begun _    := rfl
  called _ h := absurd rfl h

variable {S : System Op ε σ ι κ ξ} {frames : ∀ {β}, Op β → Option (List φ)}
variable {s : Multipart ι φ} {v : ι → List φ × List φ} {i : ι} {k : Option κ} {f : φ}
variable {fs ms : List φ}

theorem Inv.call (h : s.Inv v) (hi : v i = ([], [])) :
    (s.call fs).Inv (Function.update v i ([], fs)) where
  intact m hm := List.mem_append_left _ <| h.intact m hm
  part        := h.part
  begun j     := by
    have hj := h.begun j
    by_cases he : j = i
    case neg => rwa [Function.update_of_ne he]
    case pos =>
      rw [he, Function.update_self]
      rwa [he, hi] at hj
  called j hj := by
    by_cases he : j = i
    case pos =>
      rw [he, Function.update_self]
      exact List.mem_append_right _ <| List.mem_singleton_self _
    case neg =>
      rw [Function.update_of_ne he] at hj ⊢
      exact List.mem_append_left _ <| h.called j hj

-- Whoever sends a frame goes on with the message that is not complete.
theorem Inv.part_eq (h : s.Inv v) (ho : ∀ j ∈ s.owner, j = i) : s.part = (v i).1 := by
  rw [h.begun i]
  cases hs : s.owner
  case none   => exact h.part hs
  case some j => rw [ho j hs, if_pos rfl]

theorem Inv.begun_ne {j : ι} (h : s.Inv v) (ho : ∀ j ∈ s.owner, j = i) (hj : j ≠ i) :
    (v j).1 = [] := by
  rw [h.begun j]
  exact if_neg fun hs => hj <| ho j hs

theorem Inv.more (h : s.Inv v) (ho : ∀ j ∈ s.owner, j = i) (hi : v i = (ms, f :: fs)) :
    (s.send i f true).Inv (Function.update v i (ms ++ [f], fs)) := by
  have hp : s.part = ms := by rw [h.part_eq ho, hi]
  have hs : s.owner.or (some i) = some i := by
    cases hs : s.owner
    case none   => rfl
    case some j => rw [ho j hs]; rfl
  constructor
  case intact => exact h.intact
  case part   => intro hn; cases hs.symm.trans hn
  case begun  =>
    intro j
    change _ = if s.owner.or (some i) = some j then s.part ++ [f] else []
    by_cases he : j = i
    case pos => rw [he, Function.update_self, if_pos hs, hp]
    case neg => rw [Function.update_of_ne he, hs, if_neg fun e => he (Option.some.inj e).symm,
        h.begun_ne ho he]
  case called =>
    intro j hj
    by_cases he : j = i
    case neg =>
      rw [Function.update_of_ne he] at hj ⊢
      exact h.called j hj
    case pos =>
      have hc := h.called i
      rw [hi] at hc
      rw [he, Function.update_self, List.append_assoc]
      exact hc <| List.cons_ne_nil _ _

theorem Inv.last (h : s.Inv v) (ho : ∀ j ∈ s.owner, j = i) (hi : v i = (ms, [f])) :
    (s.send i f false).Inv (Function.update v i ([], [])) := by
  have hp : s.part = ms := by rw [h.part_eq ho, hi]
  constructor
  case intact =>
    intro m hm
    rcases List.mem_append.mp hm with hm | hm
    case inl => exact h.intact m hm
    case inr =>
      have hc := h.called i
      rw [hi] at hc
      rw [List.mem_singleton.mp hm, hp]
      exact hc <| List.cons_ne_nil _ _
  case part   => exact fun _ => rfl
  case begun  =>
    intro j
    change _ = if none = some j then [] else []
    rw [ite_self]
    by_cases he : j = i
    case pos => rw [he, Function.update_self]
    case neg => rw [Function.update_of_ne he, h.begun_ne ho he]
  case called =>
    intro j hj
    by_cases he : j = i
    case pos => rw [he, Function.update_self] at hj; exact absurd rfl hj
    case neg =>
      rw [Function.update_of_ne he] at hj ⊢
      exact h.called j hj

def outline (S : System Op ε σ ι κ ξ) (frames : ∀ {β}, Op β → Option (List φ)) :
    Outline (system S frames) (List φ × List φ) where
  Inv s v := s.2.Inv v
  cond    := alone
  Err _   := True

theorem keeps_sendMultipart (h : fs = [] → ms = []) :
    Keeps (outline S frames) i k (fun _ g => g = ([], [])) (sendMultipart fs) (ms, fs) := by
  induction fs generalizing ms
  case nil          => rw [h rfl]; rfl
  case cons f fs hi =>
    refine keeps_bind <| keeps_op fun s v x r s' hv hI hc he => ⟨fun _ _ => trivial, ?_⟩
    cases he
    cases fs
    case nil       => exact ⟨_, hI.last hc hv, rfl⟩
    case cons f' l => exact ⟨_, hI.more hc hv, hi fun h => by cases h⟩

theorem keeps_byFrames {o : Op α} :
    Keeps (outline S frames) i k (fun _ g => g = ([], [])) (byFrames frames o) ([], []) := by
  refine keeps_bind <| keeps_op fun s v x r s' hv hI _ he => ⟨fun _ _ => trivial, ?_⟩
  obtain ⟨⟨y, z⟩, hy, hs⟩ := Option.map_eq_some_iff.mp he
  have hu : s.2.Inv (Function.update v i ([], [])) := by rwa [← hv, Function.update_eq_self]
  cases y
  case error e => cases hs; exact ⟨_, hu, rfl⟩
  case ok a    =>
    cases hs
    change ∃ g, ((frames o).elim s.2 s.2.call).Inv (Function.update v i g) ∧
      Keeps (outline S frames) i k _ (sendMultipart ((frames o).getD []) >>= fun _ => pure a) g
    cases frames o
    case none    => exact ⟨_, hu, rfl⟩
    case some fs =>
      refine ⟨_, hI.call hv, keeps_bind <| (keeps_sendMultipart fun _ => rfl).mono fun r g hg => ?_⟩
      cases r <;> exact hg

theorem keeps_subst {p : Proc Op ε α} :
    Keeps (outline S frames) i k (fun _ g => g = ([], [])) (p.subst (byFrames frames))
      ([], []) := by
  induction p
  case done           => rfl
  case call o next hi =>
    refine keeps_after <| keeps_byFrames.mono fun r g hg => ?_
    rw [hg]
    exact hi r

theorem begins : Begins (outline S frames) fun _ _ g => g = ([], []) := by
  intro i k s v s' p hI hv _ he
  obtain ⟨⟨y, q⟩, hy, hs⟩ := Option.map_eq_some_iff.mp he
  cases hs
  exact ⟨_, by rwa [← hv, Function.update_eq_self], keeps_subst⟩

-- Messages are not mixed if each thread sends all frames of a message while the others send none.
theorem always_intact {as : List (Action ι κ ξ)} {s : σ}
    (c : (machine (system S frames)).Along (Meets alone) (.start (s, start)) as) :
    (machine (system S frames)).Always (fun t => t.shared.2.Intact) (.start (s, start)) as := by
  have hs : Sound (outline S frames) (fun _ _ g => g = ([], [])) (.start (s, start)) :=
    ⟨_, inv_start, fun _ => rfl⟩
  exact (always_sound begins hs c).mono fun t ⟨_, hI, _⟩ => hI.intact

end Multipart
