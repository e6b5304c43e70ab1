import Mathlib.Data.List.Forall2
import Mathlib.Data.List.Infix

/-!
# Newline-delimited bytes

`splitLines` cuts a byte string into lines as a buffered line reader does: a line ends at a newline,
a carriage return right before that newline is dropped, and what follows the last newline is a line
of its own unless it is empty. `unlines` is the writer's side.
-/

namespace Hyperion.Lib
open List

def newline : UInt8 := 10

def carriageReturn : UInt8 := 13

def splitLines : List UInt8 → List (List UInt8)
  | [] => []
  | b :: bs =>
    if b = newline then [] :: splitLines bs
    else if b = carriageReturn ∧ bs.head? = some newline then splitLines bs
    else match splitLines bs with
      | [] => [[b]]
      | l :: ls => (b :: l) :: ls

/-- Every line followed by a newline. -/
def unlines (ls : List (List UInt8)) : List UInt8 := ls.flatMap (· ++ [newline])

theorem unlines_append (ls ls' : List (List UInt8)) : unlines (ls ++ ls') = unlines ls ++ unlines ls' :=
  flatMap_append

theorem unlines_concat (ls : List (List UInt8)) (l : List UInt8) :
    unlines (ls ++ [l]) = unlines ls ++ (l ++ [newline]) := by
  rw [unlines_append]
  simp [unlines]

/-- The bytes of one line: neither of the two bytes that end a line. -/
def IsLine (l : List UInt8) : Prop := ∀ b ∈ l, b ≠ newline ∧ b ≠ carriageReturn

variable {l : List UInt8}

theorem IsLine.tail {b : UInt8} (h : IsLine (b :: l)) : IsLine l :=
  fun x hx => h x (mem_cons_of_mem _ hx)

theorem IsLine.of_start {p l : List UInt8} (h : IsLine l) (hp : p <+: l) : IsLine p :=
  fun b hb => h b (hp.subset hb)

theorem splitLines_line_append (h : IsLine l) (rest : List UInt8) :
    splitLines (l ++ newline :: rest) = l :: splitLines rest := by
  induction l with
  | nil => simp [splitLines]
  | cons b l ih =>
    obtain ⟨hnl, hcr⟩ := h b mem_cons_self
    rw [cons_append, splitLines, if_neg hnl, if_neg (fun hc => hcr hc.1), ih h.tail]

theorem splitLines_unlines_append {ls : List (List UInt8)} (h : ∀ l ∈ ls, IsLine l)
    (rest : List UInt8) : splitLines (unlines ls ++ rest) = ls ++ splitLines rest := by
  induction ls with
  | nil => rfl
  | cons l ls ih =>
    have hunfold : unlines (l :: ls) ++ rest = l ++ newline :: (unlines ls ++ rest) := by
      simp [unlines]
    rw [hunfold, splitLines_line_append (h l mem_cons_self),
      ih fun l' hl' => h l' (mem_cons_of_mem _ hl')]
    rfl

theorem splitLines_of_isLine (h : IsLine l) (hne : l ≠ []) : splitLines l = [l] := by
  induction l with
  | nil => exact absurd rfl hne
  | cons b l ih =>
    obtain ⟨hnl, hcr⟩ := h b mem_cons_self
    rw [splitLines, if_neg hnl, if_neg (fun hc => hcr hc.1)]
    cases l with
    | nil => rfl
    | cons b' l => rw [ih h.tail (cons_ne_nil _ _)]

/-- The file is empty or its last line is closed. -/
def Terminated (file : List UInt8) : Prop := file = [] ∨ file.getLast? = some newline

theorem eq_nil_of_terminated {file tail : List UInt8} (hfile : Terminated (file ++ tail))
    (htail : IsLine tail) : tail = [] := by
  cases tail using List.reverseRecOn with
  | nil => rfl
  | append_singleton tail b =>
    rcases hfile with h | h
    · simp at h
    · rw [← append_assoc, List.getLast?_concat, Option.some.injEq] at h
      exact absurd h (htail b (by simp)).1

end Hyperion.Lib
