import Mathlib

/-!
# Runs of a state machine

A machine is a function `step` from a state and a call to the next state; calls that fail are steps
too. `Meets step P s calls` says that every call of a run meets `P` in the state in which it is made.
What one step preserves then gives what a run preserves.
-/

namespace Hyperion.Lib
open List

variable {State Call : Type*} {step : State → Call → State} {P Q : State → Call → Prop}
  {Inv : State → Prop} {s : State} {calls : List Call}

/-- The state after the calls. -/
def run (step : State → Call → State) (s : State) (calls : List Call) : State := calls.foldl step s

@[simp] theorem run_nil : run step s [] = s := rfl

@[simp] theorem run_cons {c : Call} : run step s (c :: calls) = run step (step s c) calls := rfl

variable {more : List Call}

theorem run_append : run step s (calls ++ more) = run step (run step s calls) more :=
  foldl_append

/-- Every call meets `P` in the state in which it is made. -/
def Meets (step : State → Call → State) (P : State → Call → Prop) : State → List Call → Prop
  | _, [] => True
  | s, c :: calls => P s c ∧ Meets step P (step s c) calls

instance decidableMeets [∀ s c, Decidable (P s c)] : ∀ s calls, Decidable (Meets step P s calls)
  | _, [] => .isTrue trivial
  | s, c :: calls =>
    have := decidableMeets (step s c) calls
    inferInstanceAs (Decidable (P s c ∧ Meets step P (step s c) calls))

theorem meets_append :
    Meets step P s (calls ++ more) ↔ Meets step P s calls ∧ Meets step P (run step s calls) more := by
  induction calls generalizing s with
  | nil => simp [Meets]
  | cons c calls ih => rw [cons_append, Meets, Meets, ih, and_assoc, run_cons]

theorem meets_iff : Meets step P s calls ↔
    ∀ before c after, calls = before ++ c :: after → P (run step s before) c := by
  constructor
  · rintro h before c after rfl
    exact (meets_append.mp h).2.1
  · intro h
    induction calls generalizing s with
    | nil => trivial
    | cons c calls ih =>
      refine ⟨h [] c calls rfl, ih fun before d after hcalls => ?_⟩
      exact h (c :: before) d after (by rw [hcalls, cons_append])

theorem meets_calls {R : Call → Prop} : Meets step (fun _ c => R c) s calls ↔ ∀ c ∈ calls, R c := by
  induction calls generalizing s with
  | nil => simp [Meets]
  | cons c calls ih => simp [Meets, ih]

theorem Meets.invariant (hstep : ∀ s c, Inv s → P s c → Inv (step s c)) (hinit : Inv s)
    (hmeets : Meets step P s calls) : Inv (run step s calls) := by
  induction calls generalizing s with
  | nil => exact hinit
  | cons c calls ih => exact ih (hstep s c hinit hmeets.1) hmeets.2

theorem run_invariant (hstep : ∀ s c, Inv s → Inv (step s c)) (hinit : Inv s) : Inv (run step s calls) := by
  induction calls generalizing s with
  | nil => exact hinit
  | cons c calls ih => exact ih (hstep s c hinit)

/-- What the steps of a machine that may refuse a call preserve, a run preserves. -/
@[elab_as_elim] theorem foldlM_invariant {step : State → Call → Option State} {s' : State}
    (hstep : ∀ c ∈ calls, ∀ s s', Inv s → step s c = some s' → Inv s') (hinit : Inv s)
    (hrun : calls.foldlM step s = some s') : Inv s' := by
  induction calls generalizing s with
  | nil => exact Option.some.inj hrun ▸ hinit
  | cons c calls ih =>
    obtain ⟨mid, hc, hrest⟩ := Option.bind_eq_some_iff.mp hrun
    exact ih (fun d hd => hstep d (mem_cons_of_mem _ hd)) (hstep c mem_cons_self s mid hinit hc) hrest

theorem Meets.of_invariant (hstep : ∀ s, ∀ c ∈ calls, Inv s → P s c → Inv (step s c))
    (himp : ∀ s, ∀ c ∈ calls, Inv s → P s c → Q s c) (hinit : Inv s) (hmeets : Meets step P s calls) :
    Meets step Q s calls := by
  induction calls generalizing s with
  | nil => trivial
  | cons c calls ih =>
    refine ⟨himp s c mem_cons_self hinit hmeets.1, ih ?_ ?_ ?_ hmeets.2⟩
    · exact fun s c hc => hstep s c (mem_cons_of_mem _ hc)
    · exact fun s c hc => himp s c (mem_cons_of_mem _ hc)
    · exact hstep s c mem_cons_self hinit hmeets.1

theorem meets_congr (hstep : ∀ s, ∀ c ∈ calls, Inv s → P s c → Inv (step s c))
    (hiff : ∀ s, ∀ c ∈ calls, Inv s → (P s c ↔ Q s c)) (hinit : Inv s) :
    Meets step P s calls ↔ Meets step Q s calls := by
  constructor
  · exact Meets.of_invariant hstep (fun s c hc hs => (hiff s c hc hs).mp) hinit
  · exact Meets.of_invariant (fun s c hc hs hq => hstep s c hc hs ((hiff s c hc hs).mpr hq))
      (fun s c hc hs => (hiff s c hc hs).mpr) hinit

theorem meets_and : Meets step (fun s c => P s c ∧ Q s c) s calls ↔
    Meets step P s calls ∧ Meets step Q s calls := by
  simp only [meets_iff]
  exact ⟨fun h => ⟨fun b c a heq => (h b c a heq).1, fun b c a heq => (h b c a heq).2⟩,
    fun h b c a heq => ⟨h.1 b c a heq, h.2 b c a heq⟩⟩

theorem Meets.congr {L : State → Call → Prop} (hL : Meets step L s calls)
    (hstep : ∀ s c, Inv s → L s c → P s c → Inv (step s c)) (hiff : ∀ s c, Inv s → L s c → (P s c ↔ Q s c))
    (hinit : Inv s) : Meets step P s calls ↔ Meets step Q s calls := by
  have hboth : Meets step (fun s c => L s c ∧ P s c) s calls ↔ Meets step (fun s c => L s c ∧ Q s c) s calls :=
    meets_congr (fun s c _ hs hc => hstep s c hs hc.1 hc.2)
      (fun s c _ hs => and_congr_right fun hl => hiff s c hs hl) hinit
  rw [meets_and, meets_and] at hboth
  exact ⟨fun hP => (hboth.mp ⟨hL, hP⟩).2, fun hQ => (hboth.mpr ⟨hL, hQ⟩).2⟩

end Hyperion.Lib
