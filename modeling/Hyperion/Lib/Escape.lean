import Mathlib.Data.List.Basic

/-!
# Escaped fields

Fields are joined by a delimiter, and the characters that have a meaning are escaped by a backslash.
-/

namespace Hyperion.Lib
open List

def escape (special : Char → Bool) (cs : List Char) : List Char :=
  cs.flatMap fun c => if special c then ['\\', c] else [c]

def unescape : List Char → List Char
  | [] => []
  | c :: cs =>
    if c = '\\' then
      match cs with
      | [] => []
      | d :: cs => d :: unescape cs
    else c :: unescape cs

def consHead (cs : List Char) : List (List Char) → List (List Char)
  | [] => [cs]
  | piece :: pieces => (cs ++ piece) :: pieces

/-- The flag says whether the last character was a backslash that escapes. -/
def splitEscaped (delim : Char) : Bool → List Char → List (List Char)
  | false, [] => [[]]
  | true, [] => [['\\']]
  | true, c :: cs => consHead ['\\', c] (splitEscaped delim false cs)
  | false, c :: cs =>
    if c = '\\' then splitEscaped delim true cs
    else if c = delim then [] :: splitEscaped delim false cs
    else consHead [c] (splitEscaped delim false cs)

def joinWith (delim : Char) : List (List Char) → List Char
  | [] => []
  | [piece] => piece
  | piece :: pieces => piece ++ delim :: joinWith delim pieces

section
variable {special : Char → Bool} {delim : Char}

theorem unescape_escape (hbackslash : special '\\' = true) (cs : List Char) : unescape (escape special cs) = cs := by
  induction cs with
  | nil => rfl
  | cons c cs ih =>
    rw [escape, flatMap_cons, ← escape]
    cases hspecial : special c with
    | true =>
      rw [if_pos rfl, cons_append, cons_append, nil_append, unescape, if_pos rfl]
      exact congrArg _ ih
    | false =>
      have hne : c ≠ '\\' := by
        rintro rfl
        rw [hbackslash] at hspecial
        cases hspecial
      rw [if_neg (by simp), cons_append, nil_append, unescape.eq_def]
      dsimp only
      rw [if_neg hne, ih]

theorem consHead_consHead (a b : List Char) (pieces : List (List Char)) :
    consHead a (consHead b pieces) = consHead (a ++ b) pieces := by
  cases pieces with
  | nil => rfl
  | cons piece pieces => simp [consHead]

variable {pieces : List (List Char)}

theorem consHead_nil (h : pieces ≠ []) : consHead [] pieces = pieces := by
  cases pieces with
  | nil => exact absurd rfl h
  | cons piece pieces => rfl

theorem splitEscaped_ne_nil (delim : Char) (escaped : Bool) (cs : List Char) : splitEscaped delim escaped cs ≠ [] := by
  have hcons : ∀ a pieces, consHead a pieces ≠ [] := by
    intro a pieces
    cases pieces <;> simp [consHead]
  induction cs generalizing escaped with
  | nil => cases escaped <;> simp [splitEscaped]
  | cons c cs ih =>
    cases escaped with
    | true => exact hcons _ _
    | false =>
      rw [splitEscaped]
      split
      · exact ih true
      · split
        · exact cons_ne_nil _ _
        · exact hcons _ _

/-- A text that is no part of a larger piece, wherever it stands. -/
def Whole (delim : Char) (piece : List Char) : Prop :=
  ∀ rest, splitEscaped delim false (piece ++ rest) = consHead piece (splitEscaped delim false rest)

theorem Whole.nil : Whole delim [] := fun rest => (consHead_nil (splitEscaped_ne_nil delim false rest)).symm

theorem Whole.append {a b : List Char} (ha : Whole delim a) (hb : Whole delim b) : Whole delim (a ++ b) := by
  intro rest
  rw [append_assoc, ha, hb, consHead_consHead]

theorem Whole.singleton {c : Char} (hbackslash : c ≠ '\\') (hdelim : c ≠ delim) : Whole delim [c] := by
  intro rest
  rw [cons_append, nil_append, splitEscaped, if_neg hbackslash, if_neg hdelim]

theorem Whole.plain {cs : List Char} (h : ∀ c ∈ cs, c ≠ '\\' ∧ c ≠ delim) : Whole delim cs := by
  induction cs with
  | nil => exact .nil
  | cons c cs ih =>
    obtain ⟨hbackslash, hdelim⟩ := h c mem_cons_self
    exact (Whole.singleton hbackslash hdelim).append (ih fun d hd => h d (mem_cons_of_mem _ hd))

theorem Whole.escape (hbackslash : special '\\' = true) (hdelim : special delim = true) (cs : List Char) :
    Whole delim (Lib.escape special cs) := by
  induction cs with
  | nil => exact .nil
  | cons c cs ih =>
    rw [Lib.escape, flatMap_cons, ← Lib.escape]
    refine Whole.append ?_ ih
    cases hspecial : special c with
    | true =>
      intro rest
      simp only [if_true, cons_append, nil_append, splitEscaped]
    | false =>
      rw [if_neg (by simp)]
      refine .singleton ?_ ?_
      · rintro rfl
        rw [hbackslash] at hspecial
        cases hspecial
      · rintro rfl
        rw [hdelim] at hspecial
        cases hspecial

theorem splitEscaped_whole {piece : List Char} (h : Whole delim piece) : splitEscaped delim false piece = [piece] := by
  have hrest := h []
  rw [append_nil] at hrest
  rw [hrest]
  simp [splitEscaped, consHead]

theorem splitEscaped_joinWith (hdelim : delim ≠ '\\') (hne : pieces ≠ [])
    (h : ∀ piece ∈ pieces, Whole delim piece) : splitEscaped delim false (joinWith delim pieces) = pieces := by
  induction pieces with
  | nil => exact absurd rfl hne
  | cons piece pieces ih =>
    have hpiece := h piece mem_cons_self
    cases pieces with
    | nil => exact splitEscaped_whole hpiece
    | cons next pieces =>
      have htail := ih (cons_ne_nil _ _) fun p hp => h p (mem_cons_of_mem _ hp)
      rw [joinWith, hpiece, splitEscaped, if_neg hdelim, if_pos rfl, htail]
      · simp [consHead]
      · exact cons_ne_nil _ _

end

end Hyperion.Lib
