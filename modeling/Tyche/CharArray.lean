import Mathlib.Data.List.TakeWhile
import Tyche.Bytes

-- A `char` array of fixed size, which is a text up to the first zero or else up to its end.
@[ext]
structure CharArray (n : ℕ) where
  chars     : Bytes
  length_eq : chars.length = n
deriving DecidableEq

-- The text that a C string begins with.
def cString (s : Bytes) : Bytes :=
  s.takeWhile (· ≠ 0)

namespace CharArray

variable {n count : ℕ} {a : CharArray n} {src : Bytes}

def zero (n : ℕ) : CharArray n where
  chars     := .replicate n 0
  length_eq := List.length_replicate

def text (a : CharArray n) : Bytes :=
  cString a.chars

-- What is short of the count is filled with zeros, and what is longer is cut without one.
def strncpy (a : CharArray n) (src : Bytes) (count : ℕ) (h : count ≤ n) : CharArray n where
  chars     := (cString src).take count ++ .replicate (count - (cString src).length) 0 ++
    a.chars.drop count
  length_eq := by
    have := a.length_eq
    simp only [List.length_append, List.length_take, List.length_replicate, List.length_drop]
    omega

theorem zero_not_mem_cString : 0 ∉ cString src := by
  intro h
  simpa using List.mem_takeWhile_imp h

theorem cString_eq_self (h : 0 ∉ src) : cString src = src :=
  List.takeWhile_eq_self_iff.mpr fun _ hc => decide_eq_true fun h0 => h <| h0 ▸ hc

theorem cString_append_zeros {s : Bytes} {m : ℕ} (h : 0 ∉ s) :
    cString (s ++ .replicate m 0) = s := by
  have hs : ∀ c ∈ s, decide (c ≠ 0) = true := fun _ hc => decide_eq_true fun h0 => h <| h0 ▸ hc
  rw [cString, List.takeWhile_append_of_pos hs]
  cases m <;> simp [List.replicate_succ]

theorem length_text_le : a.text.length ≤ n :=
  (List.takeWhile_prefix _).length_le.trans_eq a.length_eq

theorem cString_text : cString a.text = a.text :=
  cString_eq_self zero_not_mem_cString

-- As much of a text as leaves room for a zero.
theorem text_strncpy (h : count ≤ n) :
    ((zero n).strncpy src count h).text = (cString src).take count := by
  have h0 : 0 ∉ (cString src).take count :=
    fun hm => zero_not_mem_cString <| List.mem_of_mem_take hm
  simp only [text, strncpy, zero, List.drop_replicate, List.append_assoc,
    List.replicate_append_replicate]
  exact cString_append_zeros h0

end CharArray
