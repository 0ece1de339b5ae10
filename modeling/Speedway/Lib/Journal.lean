import Mathlib.Tactic

/-!
# Replayed operations on a store with regions

An operation rewrites a store, and each operation has one target region:
addresses of other regions keep their value. The whole history of a store is
then the list of its operations, and a crash leaves the store that some
prefix of that list produces.
-/

namespace Speedway.Lib

/-- Operations `O` on stores `A → V` whose addresses are split in regions. -/
structure Journal (A V O R : Type*) where
  apply : O → (A → V) → A → V
  region : A → R
  target : O → R
  frame : ∀ o f a, region a ≠ target o → apply o f a = f a

namespace Journal

variable {A V O R : Type*} (J : Journal A V O R)

/-- The store after a list of operations, oldest first. -/
def replay (ops : List O) (f : A → V) : A → V := ops.foldl (fun f o => J.apply o f) f

@[simp] theorem replay_nil (f : A → V) : J.replay [] f = f := rfl

@[simp] theorem replay_cons (o : O) (ops : List O) (f : A → V) :
    J.replay (o :: ops) f = J.replay ops (J.apply o f) := rfl

theorem replay_append (ops ops' : List O) (f : A → V) :
    J.replay (ops ++ ops') f = J.replay ops' (J.replay ops f) := by
  simp [replay, List.foldl_append]

/-- Operations that target other regions leave an address alone. -/
theorem replay_frame {ops : List O} {a : A} (h : ∀ o ∈ ops, J.target o ≠ J.region a)
    (f : A → V) : J.replay ops f a = f a := by
  induction ops generalizing f with
  | nil => rfl
  | cons o rest ih =>
      rw [replay_cons, ih (fun o' ho' => h o' (by simp [ho']))]
      exact J.frame o f a (Ne.symm (h o (by simp)))

/-- `P` holds of the store after every prefix of the operations. -/
def Always (P : (A → V) → Prop) (ops : List O) (f : A → V) : Prop :=
  ∀ pre, pre <+: ops → P (J.replay pre f)

variable {J} {P : (A → V) → Prop}

/-- Two stretches of operations are safe when each is safe from where it starts. -/
theorem Always.append {ops ops' : List O} {f : A → V} (h : J.Always P ops f)
    (h' : J.Always P ops' (J.replay ops f)) : J.Always P (ops ++ ops') f := by
  rintro pre ⟨tail, htail⟩
  rcases List.append_eq_append_iff.mp htail with ⟨mid, hops, _⟩ | ⟨mid, hpre, hops⟩
  · exact h pre ⟨mid, hops.symm⟩
  · rw [hpre, replay_append]
    exact h' mid ⟨tail, hops.symm⟩

theorem Always.mono {Q : (A → V) → Prop} (hPQ : ∀ f, P f → Q f) {ops : List O} {f : A → V}
    (h : J.Always P ops f) : J.Always Q ops f :=
  fun pre hpre => hPQ _ (h pre hpre)

/-- A property of the regions in `S` survives every prefix of operations that
target no region of `S`. -/
theorem always_of_frame {S : R → Prop} {ops : List O} {f : A → V}
    (hP : ∀ f f' : A → V, (∀ a, S (J.region a) → f' a = f a) → P f → P f')
    (hops : ∀ o ∈ ops, ¬ S (J.target o)) (h : P f) : J.Always P ops f := by
  intro pre hpre
  apply hP f _ _ h
  intro a ha
  apply J.replay_frame
  intro o ho heq
  exact hops o (hpre.subset ho) (heq ▸ ha)

end Journal

end Speedway.Lib
