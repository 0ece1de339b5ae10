import Mathlib.Tactic.Common

/-!
# Writing to a connection

A write returns an error or takes some of the elements it is given, at least one.
A loop that goes on with the rest has delivered a part of the data in any case,
and all of it exactly if no write failed.
-/

namespace Speedway.Lib

universe u v w

/-- The results of the writes to a connection: for the `k`-th write of `n` elements an
error, or how many are taken besides the first one. -/
abbrev WriteResults := Nat → (n : Nat) → Option (Fin n)

/-- What was delivered, and the number of writes. -/
structure Connection (α : Type u) where
  bytes : List α := []
  writes : Nat := 0

variable {α : Type u} {σ : Type v} {τ : Type w}

def Connection.write (results : WriteResults) (data : List α) (c : Connection α) :
    Option Nat × Connection α :=
  match results c.writes data.length with
  | none => (none, { c with writes := c.writes + 1 })
  | some k =>
      (some (k.val + 1), ⟨c.bytes ++ data.take (k.val + 1), c.writes + 1⟩)

/-- The loop that writes the rest, for at most `fuel` writes. -/
def writeAll (write : List α → σ → Option Nat × σ) : Nat → List α → σ → Bool × σ
  | _, [], s => (true, s)
  | 0, _ :: _, s => (false, s)
  | fuel + 1, a :: data, s =>
      match write (a :: data) s with
      | (none, s) => (false, s)
      | (some n, s) => writeAll write fuel ((a :: data).drop n) s

/-- A state that only contains the connection. -/
theorem writeAll_map {write : List α → σ → Option Nat × σ} {write' : List α → τ → Option Nat × τ}
    (f : τ → σ) (h : ∀ data t, write data (f t) = ((write' data t).1, f (write' data t).2))
    (fuel : Nat) (data : List α) (t : τ) :
    writeAll write fuel data (f t) =
      ((writeAll write' fuel data t).1, f (writeAll write' fuel data t).2) := by
  induction fuel generalizing data t with
  | zero =>
      cases data with
      | nil => rfl
      | cons a data => rfl
  | succ fuel ih =>
      cases data with
      | nil => rfl
      | cons a data =>
          simp only [writeAll, h]
          cases hwrite : write' (a :: data) t with
          | mk result t' =>
              cases result with
              | none => rfl
              | some n => exact ih _ t'

/-- A write delivers a part of its data. -/
theorem Connection.write_bytes (results : WriteResults) (data : List α) (c : Connection α) :
    (c.write results data).2.bytes =
      c.bytes ++ data.take ((c.write results data).1.getD 0) := by
  rw [Connection.write]
  split
  · exact (List.append_nil _).symm
  · rfl

/-- A part of the data is delivered, and all of it exactly if the loop was not left. -/
theorem writeAll_delivers (results : WriteResults) {fuel : Nat} {data : List α}
    (hfuel : data.length ≤ fuel) (c : Connection α) :
    ∃ sent, (writeAll (Connection.write results) fuel data c).2.bytes = c.bytes ++ sent ∧
      sent <+: data ∧
      ((writeAll (Connection.write results) fuel data c).1 = true ↔ sent = data) := by
  induction fuel generalizing data c with
  | zero =>
      obtain rfl := List.eq_nil_of_length_eq_zero (Nat.le_zero.mp hfuel)
      exact ⟨[], (List.append_nil _).symm, List.prefix_refl [], iff_of_true rfl rfl⟩
  | succ fuel ih =>
      cases data with
      | nil => exact ⟨[], (List.append_nil _).symm, List.prefix_refl [], iff_of_true rfl rfl⟩
      | cons a data =>
          have hbytes := c.write_bytes results (a :: data)
          simp only [writeAll]
          cases hwrite : c.write results (a :: data) with
          | mk result c' =>
              rw [hwrite] at hbytes
              cases result with
              | none =>
                  refine ⟨[], hbytes, List.nil_prefix, iff_of_false Bool.false_ne_true nofun⟩
              | some n =>
                  have hpos : 0 < n := by
                    rw [Connection.write] at hwrite
                    split at hwrite
                    · exact nomatch hwrite
                    · cases hwrite
                      exact Nat.succ_pos _
                  have hrest : ((a :: data).drop n).length ≤ fuel := by
                    rw [List.length_drop]
                    rw [List.length_cons] at hfuel ⊢
                    omega
                  obtain ⟨sent, hsent, hpart, hall⟩ := ih hrest c'
                  refine ⟨(a :: data).take n ++ sent, ?_, ?_, hall.trans ?_⟩
                  · rw [hsent, hbytes, List.append_assoc]
                    rfl
                  · obtain ⟨rest, hdrop⟩ := hpart
                    refine ⟨rest, ?_⟩
                    rw [List.append_assoc, hdrop, List.take_append_drop]
                  · constructor
                    · rintro rfl
                      exact List.take_append_drop n (a :: data)
                    · intro hwhole
                      have hsame := hwhole.trans (List.take_append_drop n (a :: data)).symm
                      exact List.append_cancel_left hsame

end Speedway.Lib
