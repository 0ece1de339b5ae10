import Mathlib.Tactic

/-!
# Runs that log events, and invariants under conditions on the events

The states of a transition system carry a trace that every step extends. An
invariant may hold only in runs whose events all meet a condition; such an
invariant is still proved step by step, because the events of a prefix of a
run are events of the run.
-/

namespace Speedway.Lib

variable {W E : Type*}

/-- `I` holds of `w` provided that every event logged so far meets `C`. -/
def Guarded (trace : W → List E) (C : E → Prop) (I : W → Prop) (w : W) : Prop :=
  (∀ e ∈ trace w, C e) → I w

variable {trace : W → List E} {C : E → Prop} {I J : W → Prop} {r : W → W → Prop}

/-- A step that extends the trace and keeps `I` when its events meet `C` keeps
the guarded invariant. -/
theorem Guarded.step {w w' : W} (h : Guarded trace C I w) (hext : ∀ e ∈ trace w, e ∈ trace w')
    (hstep : (∀ e ∈ trace w', C e) → I w → I w') : Guarded trace C I w' := by
  intro hC
  exact hstep hC (h fun e he => hC e (hext e he))

/-- An unconditional invariant of a run. -/
theorem invariant_run {w w' : W} (h : J w) (hrun : Relation.ReflTransGen r w w')
    (hJ : ∀ w w', J w → r w w' → J w') : J w' := by
  induction hrun with
  | refl => exact h
  | tail _ hs ih => exact hJ _ _ ih hs

/-- A guarded invariant of a run, on top of an unconditional one. -/
theorem Guarded.run {w w' : W} (h : Guarded trace C I w) (hj : J w)
    (hrun : Relation.ReflTransGen r w w') (hJ : ∀ w w', J w → r w w' → J w')
    (hext : ∀ w w', J w → r w w' → ∀ e ∈ trace w, e ∈ trace w')
    (hI : ∀ w w', J w → r w w' → (∀ e ∈ trace w', C e) → I w → I w') :
    Guarded trace C I w' := by
  induction hrun with
  | refl => exact h
  | tail hs' hs ih =>
      have hj' := invariant_run hj hs' hJ
      exact ih.step (hext _ _ hj' hs) (hI _ _ hj' hs)

end Speedway.Lib
