import Mathlib.Data.List.Basic
import Mathlib.Tactic.Common
import Mathlib.Tactic.Ring

/-!
# Lists in blocks

A list is cut into blocks of one length; the last block is filled up. Blocks of one
length can be told apart in their concatenation.
-/

namespace Speedway.Lib

variable {α β γ : Type*}

/-- Block `c` of a list, filled up with `x`. -/
def block (n : Nat) (x : α) (l : List α) (c : Nat) : List α :=
  (l.drop (c * n)).take n ++ List.replicate (n - ((l.drop (c * n)).take n).length) x

/-- The number of blocks of a list. -/
def blockCount (n : Nat) (l : List α) : Nat := (l.length + (n - 1)) / n

section Blocks

variable {n : Nat} {x : α} {l : List α}

@[simp] theorem length_block (n : Nat) (x : α) (l : List α) (c : Nat) :
    (block n x l c).length = n := by
  rw [block, List.length_append, List.length_replicate, List.length_take]
  omega

/-- A block inside of the list is not filled up. -/
theorem block_of_le {c : Nat} (h : (c + 1) * n ≤ l.length) :
    block n x l c = (l.drop (c * n)).take n := by
  have hlen : ((l.drop (c * n)).take n).length = n := by
    rw [List.length_take, List.length_drop]
    rw [Nat.add_mul, Nat.one_mul] at h
    omega
  rw [block, hlen, Nat.sub_self, List.replicate_zero, List.append_nil]

/-- Such a block stays what it is when the list grows. -/
theorem block_append {c : Nat} (h : (c + 1) * n ≤ l.length) (more : List α) :
    block n x (l ++ more) c = block n x l c := by
  have hadd : (c + 1) * n = c * n + n := Nat.succ_mul c n
  rw [block_of_le h, block_of_le (by rw [List.length_append]; omega),
    List.drop_append_of_le_length (by omega),
    List.take_append_of_le_length (by rw [List.length_drop]; omega)]

theorem block_succ (n : Nat) (x : α) (l : List α) (c : Nat) :
    block n x l (c + 1) = block n x (l.drop n) c := by
  rw [block, block, List.drop_drop, show n + c * n = (c + 1) * n by ring]

/-- The blocks together are the list and what fills up the last one. -/
theorem flatMap_block {k : Nat} (h : l.length ≤ k * n) :
    (List.range k).flatMap (block n x l) = l ++ List.replicate (k * n - l.length) x := by
  induction k generalizing l with
  | zero =>
      rw [Nat.zero_mul, Nat.le_zero, List.length_eq_zero_iff] at h
      simp [h]
  | succ k ih =>
      have hdrop : (l.drop n).length ≤ k * n := by
        rw [List.length_drop]
        rw [Nat.add_mul, Nat.one_mul] at h
        omega
      have hfirst : block n x l 0 = l.take n ++ List.replicate (n - l.length) x := by
        rw [block, Nat.zero_mul, List.drop_zero, List.length_take]
        congr 2
        omega
      rw [List.range_succ_eq_map, List.flatMap_cons, List.flatMap_map]
      simp only [Nat.succ_eq_add_one, block_succ]
      rw [ih hdrop, hfirst]
      rcases Nat.le_total l.length n with hle | hle
      · rw [List.take_of_length_le hle, List.drop_of_length_le hle, List.nil_append,
          List.append_assoc, List.replicate_append_replicate]
        congr 2
        rw [List.length_nil, Nat.add_mul, Nat.one_mul]
        omega
      · rw [Nat.sub_eq_zero_of_le hle, List.replicate_zero, List.append_nil, ← List.append_assoc,
          List.take_append_drop, List.length_drop]
        congr 2
        rw [Nat.add_mul, Nat.one_mul]
        omega

theorem le_blockCount_mul (hn : 0 < n) (l : List α) : l.length ≤ blockCount n l * n := by
  have := Nat.lt_div_mul_add (a := l.length + (n - 1)) hn
  rw [blockCount]
  omega

theorem blockCount_le {k : Nat} (h : l.length ≤ k * n) : blockCount n l ≤ k := by
  rcases Nat.eq_zero_or_pos n with rfl | hn
  · rw [blockCount, Nat.div_zero]
    exact Nat.zero_le k
  · rw [blockCount, ← Nat.lt_add_one_iff, Nat.div_lt_iff_lt_mul hn, Nat.add_mul, Nat.one_mul]
    omega

/-- A list starts a block as long as it is not used up. -/
theorem lt_blockCount_iff (hn : 0 < n) (l : List α) (c : Nat) :
    c < blockCount n l ↔ c * n < l.length := by
  constructor
  · intro h
    by_contra hle
    exact absurd (blockCount_le (Nat.le_of_not_lt hle)) (Nat.not_le.mpr h)
  · intro h
    by_contra hle
    have := Nat.mul_le_mul_right n (Nat.le_of_not_lt hle)
    have := le_blockCount_mul hn l
    omega

/-- A list that is filled up looks the same further on only if it is made of the filling. -/
theorem take_drop_append_replicate_iff {d : Nat} (hd : 0 < d) (hn : d ≤ n) :
    ((l ++ List.replicate n x).drop d).take l.length = l ↔ ∀ a ∈ l, a = x := by
  constructor
  · intro h
    have hnext : ∀ i, i < l.length → l[i]? = (l ++ List.replicate n x)[d + i]? := by
      intro i hi
      have := congrArg (·[i]?) h
      rw [List.getElem?_take, if_pos hi, List.getElem?_drop] at this
      exact this.symm
    -- from the end on, as the entry `d` further on is known
    have hfill : ∀ k i, l.length = i + k + 1 → l[i]? = some x := by
      intro k
      induction k using Nat.strong_induction_on with
      | _ k ih =>
          intro i hi
          rw [hnext i (by omega)]
          rcases Nat.lt_or_ge (d + i) l.length with hlt | hge
          · rw [List.getElem?_append_left hlt]
            exact ih (k - d) (by omega) (d + i) (by omega)
          · rw [List.getElem?_append_right hge, List.getElem?_replicate, if_pos (by omega)]
    intro a ha
    obtain ⟨i, hi, rfl⟩ := List.mem_iff_getElem.mp ha
    have := hfill (l.length - i - 1) i (by omega)
    rwa [List.getElem?_eq_getElem hi, Option.some_inj] at this
  · intro h
    rw [List.eq_replicate_of_mem h, List.replicate_append_replicate, List.drop_replicate,
      List.take_replicate, List.length_replicate]
    congr 1
    omega

end Blocks

section Concatenation

variable {n : Nat} {f : α → List γ} {g : β → List γ}

theorem length_flatMap_of_length (l : List α) (hf : ∀ a ∈ l, (f a).length = n) :
    (l.flatMap f).length = l.length * n := by
  induction l with
  | nil => simp
  | cons a l ih =>
      rw [List.forall_mem_cons] at hf
      rw [List.flatMap_cons, List.length_append, hf.1, ih hf.2, List.length_cons, Nat.add_mul,
        Nat.one_mul, Nat.add_comm]

theorem take_flatMap_of_length (l : List α) (hf : ∀ a ∈ l, (f a).length = n) (k : Nat) :
    (l.flatMap f).take (k * n) = (l.take k).flatMap f := by
  induction l generalizing k with
  | nil => simp
  | cons a l ih =>
      rw [List.forall_mem_cons] at hf
      cases k with
      | zero => simp
      | succ k =>
          rw [List.flatMap_cons, List.take_succ_cons, List.flatMap_cons, ← ih hf.2 k,
            Nat.add_mul, Nat.one_mul, Nat.add_comm, ← hf.1, List.take_length_add_append]

/-- Blocks of one length are the same if their concatenations are. -/
theorem flatMap_eq_iff_of_length (hn : 0 < n) {l : List α} {l' : List β}
    (hf : ∀ a ∈ l, (f a).length = n) (hg : ∀ b ∈ l', (g b).length = n) :
    l.flatMap f = l'.flatMap g ↔ l.map f = l'.map g := by
  constructor
  · intro h
    induction l generalizing l' with
    | nil =>
        have hlen := congrArg List.length h
        rw [length_flatMap_of_length l' hg] at hlen
        rw [List.flatMap_nil, List.length_nil, eq_comm, Nat.mul_eq_zero] at hlen
        rw [List.length_eq_zero_iff.mp (hlen.resolve_right (Nat.ne_of_gt hn))]
        rfl
    | cons a l ih =>
        cases l' with
        | nil =>
            have hlen := congrArg List.length h
            rw [length_flatMap_of_length _ hf, List.flatMap_nil, List.length_nil,
              Nat.mul_eq_zero] at hlen
            exact absurd (hlen.resolve_right (Nat.ne_of_gt hn)) (Nat.succ_ne_zero _)
        | cons b l' =>
            rw [List.forall_mem_cons] at hf hg
            rw [List.flatMap_cons, List.flatMap_cons] at h
            obtain ⟨hhead, htail⟩ := List.append_inj h (hf.1.trans hg.1.symm)
            rw [List.map_cons, List.map_cons, hhead, ih hf.2 hg.2 htail]
  · intro h
    rw [List.flatMap_def, List.flatMap_def, h]

end Concatenation

end Speedway.Lib
