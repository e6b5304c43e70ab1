import Mathlib

/-!
# Framed texts

An encoding that writes lengths before the data, with numbers of a fixed width, can be read back whatever
follows it, as long as the lengths fit. `Framed P text` says so of the values in `P`; it is kept by the ways
in which such encodings are put together.
-/

namespace Hyperion.Lib
open List

/-- The values in `P`, and the end of their text, are seen from the text, whatever follows it. -/
def Framed {α β : Type} (P : α → Prop) (text : α → List β) : Prop :=
  ∀ a b s t, P a → P b → text a ++ s = text b ++ t → a = b ∧ s = t

/-- The text of a value that may be absent, after a mark that says whether it is. -/
def optionText {α β : Type} (absent present : β) (text : α → List β) : Option α → List β
  | none => [absent]
  | some a => present :: text a

def listText {α β : Type} (count : Nat → List β) (text : α → List β) (l : List α) : List β :=
  count l.length ++ l.flatMap text

namespace Framed
variable {α γ β : Type} {P : α → Prop} {Q : γ → Prop} {text : α → List β} {text' : γ → List β}

theorem inj (h : Framed P text) {a b : α} (ha : P a) (hb : P b) (heq : text a = text b) : a = b :=
  (h a b [] [] ha hb (by rw [heq])).1

theorem of_length (width : Nat) (hlength : ∀ a, (text a).length = width)
    (hinj : ∀ a b, P a → P b → text a = text b → a = b) : Framed P text := by
  intro a b s t ha hb h
  obtain ⟨htext, hst⟩ := append_inj h ((hlength a).trans (hlength b).symm)
  exact ⟨hinj a b ha hb htext, hst⟩

theorem tag {code : α → β} (hinj : Function.Injective code) : Framed (fun _ => True) fun a => [code a] :=
  .of_length 1 (fun _ => rfl) fun _ _ _ _ h => hinj (List.cons.inj h).1

theorem append (h : Framed P text) (h' : Framed Q text') :
    Framed (fun x : α × γ => P x.1 ∧ Q x.2) fun x => text x.1 ++ text' x.2 := by
  rintro ⟨a, c⟩ ⟨b, d⟩ s t ⟨ha, hc⟩ ⟨hb, hd⟩ heq
  simp only [append_assoc] at heq
  obtain ⟨rfl, hrest⟩ := h a b _ _ ha hb heq
  obtain ⟨rfl, rfl⟩ := h' c d _ _ hc hd hrest
  exact ⟨rfl, rfl⟩

theorem comap (h : Framed P text) (f : γ → α) (hinj : Function.Injective f) :
    Framed (fun c => P (f c)) fun c => text (f c) := by
  intro c d s t hc hd heq
  obtain ⟨hf, hst⟩ := h _ _ s t hc hd heq
  exact ⟨hinj hf, hst⟩

theorem option {absent present : β} (hne : absent ≠ present) (h : Framed P text) :
    Framed (fun o : Option α => ∀ a ∈ o, P a) (optionText absent present text) := by
  intro o o' s t ho ho' heq
  cases o with
  | none =>
    cases o' with
    | none => exact ⟨rfl, (List.cons.inj heq).2⟩
    | some b => exact absurd (List.cons.inj heq).1 hne
  | some a =>
    cases o' with
    | none => exact absurd (List.cons.inj heq).1.symm hne
    | some b =>
      obtain ⟨rfl, rfl⟩ := h a b s t (ho a rfl) (ho' b rfl) (List.cons.inj heq).2
      exact ⟨rfl, rfl⟩

theorem flatMap_inj (h : Framed P text) (hne : ∀ a, text a ≠ []) {l l' : List α} (hl : ∀ a ∈ l, P a)
    (hl' : ∀ a ∈ l', P a) (heq : l.flatMap text = l'.flatMap text) : l = l' := by
  induction l generalizing l' with
  | nil =>
    cases l' with
    | nil => rfl
    | cons b l' => exact absurd (append_eq_nil_iff.mp heq.symm).1 (hne b)
  | cons a l ih =>
    cases l' with
    | nil => exact absurd (append_eq_nil_iff.mp heq).1 (hne a)
    | cons b l' =>
      obtain ⟨rfl, hrest⟩ := h a b _ _ (hl a mem_cons_self) (hl' b mem_cons_self) heq
      rw [ih (fun c hc => hl c (mem_cons_of_mem _ hc)) (fun c hc => hl' c (mem_cons_of_mem _ hc))
        hrest]

section
variable {count : Nat → List β} {bound : Nat}

theorem counted (hcount : Framed (· < bound) count) :
    Framed (fun l : List β => l.length < bound) fun l => count l.length ++ l := by
  intro l l' s t hl hl' heq
  simp only [append_assoc] at heq
  obtain ⟨hlength, hrest⟩ := hcount _ _ _ _ hl hl' heq
  exact append_inj hrest hlength

theorem flatMap_append_inj (h : Framed P text) {l l' : List α} {s t : List β}
    (hlength : l.length = l'.length) (hl : ∀ a ∈ l, P a) (hl' : ∀ a ∈ l', P a)
    (heq : l.flatMap text ++ s = l'.flatMap text ++ t) : l = l' ∧ s = t := by
  induction l generalizing l' with
  | nil =>
    obtain rfl := length_eq_zero_iff.mp hlength.symm
    exact ⟨rfl, heq⟩
  | cons a l ih =>
    cases l' with
    | nil => cases hlength
    | cons b l' =>
      simp only [flatMap_cons, append_assoc] at heq
      obtain ⟨rfl, hrest⟩ := h a b _ _ (hl a mem_cons_self) (hl' b mem_cons_self) heq
      obtain ⟨rfl, rfl⟩ := ih (Nat.succ.inj hlength) (fun c hc => hl c (mem_cons_of_mem _ hc))
        (fun c hc => hl' c (mem_cons_of_mem _ hc)) hrest
      exact ⟨rfl, rfl⟩

theorem list (hcount : Framed (· < bound) count) (h : Framed P text) :
    Framed (fun l : List α => l.length < bound ∧ ∀ a ∈ l, P a) (listText count text) := by
  rintro l l' s t ⟨hl, hall⟩ ⟨hl', hall'⟩ heq
  simp only [listText, append_assoc] at heq
  obtain ⟨hlength, hrest⟩ := hcount _ _ _ _ hl hl' heq
  exact h.flatMap_append_inj hlength hall hall' hrest

end

end Framed

end Hyperion.Lib
