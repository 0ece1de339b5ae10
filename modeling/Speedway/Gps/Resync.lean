import Mathlib.Data.List.TakeWhile
import Speedway.Gps.Nmea

/-!
# Finding the sentences in a damaged buffer

The search visits the `$` of the buffer from left to right and goes on after
the `*` of a sentence that it accepts, or after the `$` of one that it does not.
Of the accepted candidates that end at one `*` it stores the longest, and the
first thirty of these are stored.
-/

namespace Speedway.Gps

open Speedway.Lib Speedway.Lib.Form

section Find

variable {m : Mem} {c : UInt8} {n i j : Nat}

theorem findChar_eq_some : findChar m c n i = some j ↔
    i ≤ j ∧ j < i + n ∧ m j = c ∧ ∀ k, i ≤ k → k < j → m k ≠ c := by
  induction n generalizing i with
  | zero =>
      simp only [findChar]
      constructor
      · exact nofun
      · rintro ⟨h₁, h₂, -⟩
        omega
  | succ n ih =>
      rw [findChar]
      split
      next hc =>
        constructor
        · rintro h
          obtain rfl := Option.some.inj h
          exact ⟨Nat.le_refl _, by omega, hc, fun k h₁ h₂ => by omega⟩
        · rintro ⟨h₁, -, -, hfirst⟩
          congr 1
          by_contra hne
          exact hfirst i (Nat.le_refl _) (by omega) hc
      next hc =>
        rw [ih]
        constructor
        · rintro ⟨h₁, h₂, hj, hfirst⟩
          refine ⟨by omega, by omega, hj, fun k hk₁ hk₂ => ?_⟩
          by_cases hk : k = i
          · exact hk ▸ hc
          · exact hfirst k (by omega) hk₂
        · rintro ⟨h₁, h₂, hj, hfirst⟩
          have hne : i ≠ j := fun h => hc (h ▸ hj)
          exact ⟨by omega, by omega, hj, fun k hk₁ hk₂ => hfirst k (by omega) hk₂⟩

theorem findChar_eq_none : findChar m c n i = none ↔ ∀ k, i ≤ k → k < i + n → m k ≠ c := by
  induction n generalizing i with
  | zero =>
      simp only [findChar, true_iff]
      intro k h₁ h₂
      omega
  | succ n ih =>
      rw [findChar]
      split
      next hc =>
        constructor
        · exact nofun
        · exact fun h => absurd hc (h i (Nat.le_refl _) (by omega))
      next hc =>
        rw [ih]
        constructor
        · intro h k hk₁ hk₂
          by_cases hk : k = i
          · exact hk ▸ hc
          · exact h k (by omega) (by omega)
        · exact fun h k hk₁ hk₂ => h k (by omega) (by omega)

theorem strstr_eq_some : strstr m c i = some j ↔
    i ≤ j ∧ j < gpsBuffSize ∧ m j = c ∧ ∀ k, i ≤ k → k < j → m k ≠ c := by
  rw [strstr, findChar_eq_some]
  constructor
  · rintro ⟨h₁, h₂, h₃⟩
    exact ⟨h₁, by omega, h₃⟩
  · rintro ⟨h₁, h₂, h₃⟩
    exact ⟨h₁, by omega, h₃⟩

theorem strstr_eq_none : strstr m c i = none ↔ ∀ k, i ≤ k → k < gpsBuffSize → m k ≠ c := by
  rw [strstr, findChar_eq_none]
  constructor
  · exact fun h k h₁ h₂ => h k h₁ (by omega)
  · exact fun h k h₁ h₂ => h k h₁ (by omega)

end Find

/-- The characters from `$` at `a` to the checksum after `*` at `e`. -/
def sentenceText (m : Mem) (a e : Nat) : List UInt8 := (m.shift a).bytes (3 + e - a)

/-- The test of the parser: `$` at `a`, the first `*` after it at `e`, the length, the
end of the buffer and the checksum. -/
structure Accepts (m : Mem) (a e : Nat) : Prop where
  start : m a = 0x24
  star : strstr m 0x2a (a + 1) = some e
  room : 3 + e < gpsBuffSize
  size : minMsgSize < 3 + e - a ∧ 3 + e - a ≤ maxMsgSize
  checksum : hexText 0x20 (checksumNMEA (sentenceText m a e) (3 + e - a - 3)) =
    (sentenceText m a e).drop (3 + e - a - 2)

/-- An accepted sentence that does not lie inside a longer one. -/
structure Sentence (m : Mem) (a e : Nat) : Prop where
  accepts : Accepts m a e
  outer : ∀ a', a' < a → ¬ Accepts m a' e

variable {m : Mem} {a a' e e' s t : Nat}

theorem Accepts.bounds (h : Accepts m a e) :
    a < e ∧ m e = 0x2a ∧ ∀ k, a < k → k < e → m k ≠ 0x2a := by
  obtain ⟨h₁, -, h₂, h₃⟩ := strstr_eq_some.mp h.star
  exact ⟨h₁, h₂, h₃⟩

/-- Candidates that overlap end at the same `*`. -/
theorem Accepts.end_eq (h : Accepts m a e) (h' : Accepts m a' e') (h₁ : a ≤ a') (h₂ : a' < e) :
    e' = e := by
  obtain ⟨hlt, hstar, hfirst⟩ := h.bounds
  obtain ⟨hlt', hstar', hfirst'⟩ := h'.bounds
  rcases Nat.lt_trichotomy e' e with hless | heq | hmore
  · exact absurd hstar' (hfirst e' (by omega) hless)
  · exact heq
  · exact absurd hstar (hfirst' e (by omega) hmore)

theorem Sentence.unique (h : Sentence m a e) (h' : Sentence m a' e) : a = a' := by
  rcases Nat.lt_trichotomy a a' with hless | heq | hmore
  · exact absurd h.accepts (h'.outer a hless)
  · exact heq
  · exact absurd h'.accepts (h.outer a' hmore)

section Collect

variable {D : List (Nat × Nat)} {p : Parsed}

/-- `D` lists the sentences that start before `s`, in the order of the buffer. -/
structure Collected (m : Mem) (s : Nat) (D : List (Nat × Nat)) : Prop where
  sorted : D.Pairwise fun x y => x.2 < y.1
  mem : ∀ a e, (a, e) ∈ D ↔ Sentence m a e ∧ a < s

/-- No sentence starts in a part of the buffer. -/
theorem Collected.skip (h : Collected m s D) (hle : s ≤ t)
    (hnone : ∀ a e, s ≤ a → a < t → ¬ Sentence m a e) : Collected m t D := by
  refine ⟨h.sorted, fun a e => ?_⟩
  rw [h.mem]
  constructor
  · rintro ⟨hsentence, hlt⟩
    exact ⟨hsentence, by omega⟩
  · rintro ⟨hsentence, hlt⟩
    refine ⟨hsentence, ?_⟩
    by_contra hge
    exact hnone a e (by omega) hlt hsentence

/-- A sentence starts at `s`, and none between it and `t`. -/
theorem Collected.add (h : Collected m s D) (hs : Sentence m s e) (hlt : s < t)
    (hnone : ∀ a e, s < a → a < t → ¬ Sentence m a e) : Collected m t (D ++ [(s, e)]) := by
  have hbefore (a e' : Nat) (ha : (a, e') ∈ D) : e' < s := by
    obtain ⟨hsentence, hless⟩ := (h.mem a e').mp ha
    obtain ⟨-, hstar, -⟩ := hsentence.accepts.bounds
    by_contra hge
    have hne : s ≠ e' := by
      rintro rfl
      rw [hs.accepts.start] at hstar
      exact absurd hstar (by decide)
    have hend := hsentence.accepts.end_eq hs.accepts (Nat.le_of_lt hless) (by omega)
    subst hend
    exact absurd (hsentence.unique hs) (by omega)
  refine ⟨?_, fun a e' => ?_⟩
  · rw [List.pairwise_append]
    refine ⟨h.sorted, List.pairwise_singleton _ _, fun x hx y hy => ?_⟩
    obtain rfl := List.mem_singleton.mp hy
    exact hbefore x.1 x.2 hx
  · rw [List.mem_append, h.mem, List.mem_singleton, Prod.mk.injEq]
    constructor
    · rintro (⟨hsentence, hless⟩ | ⟨rfl, rfl⟩)
      · exact ⟨hsentence, by omega⟩
      · exact ⟨hs, hlt⟩
    · rintro ⟨hsentence, hless⟩
      rcases Nat.lt_trichotomy a s with hlow | rfl | hhigh
      · exact .inl ⟨hsentence, hlow⟩
      · refine .inr ⟨rfl, ?_⟩
        exact Option.some.inj (hsentence.accepts.star.symm.trans hs.accepts.star)
      · exact absurd hsentence (hnone a e' hhigh hless)

/-- `i` is the place of the newest stored message of a type, or -1. -/
def Newest (p : Parsed) (typ : GpsMsgType) (i : Int) : Prop :=
  (i = -1 ∧ ∀ k, k < p.gpsMsgIDX → (p.gpsMsgArray k).msgTyp ≠ typ) ∨
    ∃ k : Nat, i = k ∧ k < p.gpsMsgIDX ∧ (p.gpsMsgArray k).msgTyp = typ ∧
      ∀ j, k < j → j < p.gpsMsgIDX → (p.gpsMsgArray j).msgTyp ≠ typ

/-- The message stored for a sentence. -/
def entry (m : Mem) (a e : Nat) : GpsMessage :=
  ⟨relabel (sentenceText m a e), getCPSMsgType (sentenceText m a e), true⟩

/-- The first thirty sentences of `D` are stored, and nothing else is to be sent. -/
structure Stores (m : Mem) (p : Parsed) (D : List (Nat × Nat)) : Prop where
  count : p.gpsMsgIDX = min numGpsMessages D.length
  stored : ∀ k a e, D[k]? = some (a, e) → k < numGpsMessages → p.gpsMsgArray k = entry m a e
  rest : ∀ k, p.gpsMsgIDX ≤ k → (p.gpsMsgArray k).sendThisMsg = false
  gga : Newest p .gga p.idxOfNewestGGAMsg
  vtg : Newest p .vtg p.idxOfNewestVTGMsg
  copied : p.inputStrFits = true ↔
    ∀ x ∈ D.take numGpsMessages, inputStrFits (sentenceText m x.1 x.2) = true

theorem stores_reset : Stores m resetGPSMessages [] :=
  ⟨rfl, nofun, fun _ _ => rfl, .inl ⟨rfl, fun _ _ => nofun⟩, .inl ⟨rfl, fun _ _ => nofun⟩,
    iff_of_true rfl nofun⟩

/-- A candidate that fails leaves what is to be sent. -/
theorem Stores.copy (h : Stores m p D) (message : List UInt8) : Stores m (p.copy message) D := by
  have hother (k : Nat) (hk : k < p.gpsMsgIDX) : (p.copy message).gpsMsgArray k =
      p.gpsMsgArray k := Function.update_of_ne (by omega) _ _
  have hnewest (typ : GpsMsgType) (i : Int) (hi : Newest p typ i) :
      Newest (p.copy message) typ i := by
    rcases hi with ⟨rfl, hnone⟩ | ⟨k, rfl, hk, htyp, hlater⟩
    · refine .inl ⟨rfl, fun k hk => ?_⟩
      rw [hother k hk]
      exact hnone k hk
    · refine .inr ⟨k, rfl, hk, ?_, fun j hj hj' => ?_⟩
      · rw [hother k hk]
        exact htyp
      · rw [hother j hj']
        exact hlater j hj hj'
  refine ⟨h.count, fun k a e hk hlt => ?_, fun k hk => ?_, hnewest _ _ h.gga, hnewest _ _ h.vtg,
    h.copied⟩
  · have hlength := (List.getElem?_eq_some_iff.mp hk).1
    rw [hother k (by rw [h.count]; omega)]
    exact h.stored k a e hk hlt
  · by_cases heq : k = p.gpsMsgIDX
    · subst heq
      rw [Parsed.copy]
      simp only [Function.update_self]
      exact h.rest _ hk
    · have hsame : (p.copy message).gpsMsgArray k = p.gpsMsgArray k :=
        Function.update_of_ne heq _ _
      rw [hsame]
      exact h.rest k hk

/-- The place of the newest message after one more was accepted. -/
theorem Newest.accept {typ : GpsMsgType} {i : Int} (h : Newest p typ i) (message : List UInt8) :
    Newest (p.accept message) typ
      (if getCPSMsgType message = typ ∧ i < p.gpsMsgIDX then p.gpsMsgIDX else i) := by
  have hi : i < p.gpsMsgIDX := by
    rcases h with ⟨rfl, -⟩ | ⟨k, rfl, hk, -⟩ <;> omega
  have hother (k : Nat) (hk : k < p.gpsMsgIDX) : (p.accept message).gpsMsgArray k =
      p.gpsMsgArray k := Function.update_of_ne (by omega) _ _
  have hnew : ((p.accept message).gpsMsgArray p.gpsMsgIDX).msgTyp = getCPSMsgType message := by
    simp [Parsed.accept]
  have hidx : (p.accept message).gpsMsgIDX = p.gpsMsgIDX + 1 := rfl
  by_cases htyp : getCPSMsgType message = typ
  · rw [if_pos ⟨htyp, hi⟩]
    exact .inr ⟨p.gpsMsgIDX, rfl, by omega, hnew.trans htyp, fun j hj hj' => by omega⟩
  · rw [if_neg fun hand => htyp hand.1]
    rcases h with ⟨rfl, hnone⟩ | ⟨k, rfl, hk, hktyp, hlater⟩
    · refine .inl ⟨rfl, fun k hk => ?_⟩
      by_cases heq : k = p.gpsMsgIDX
      · rw [heq, hnew]
        exact htyp
      · rw [hother k (by omega)]
        exact hnone k (by omega)
    · refine .inr ⟨k, rfl, by omega, ?_, fun j hj hj' => ?_⟩
      · rw [hother k hk]
        exact hktyp
      · by_cases heq : j = p.gpsMsgIDX
        · rw [heq, hnew]
          exact htyp
        · rw [hother j (by omega)]
          exact hlater j hj (by omega)

theorem Stores.accept (h : Stores m p D) (hroom : p.gpsMsgIDX < numGpsMessages) :
    Stores m (p.accept (sentenceText m a e)) (D ++ [(a, e)]) := by
  have hcount := h.count
  have hidx : (p.accept (sentenceText m a e)).gpsMsgIDX = p.gpsMsgIDX + 1 := rfl
  refine ⟨?_, fun k b f hk hlt => ?_, fun k hk => ?_, h.gga.accept _, h.vtg.accept _, ?_⟩
  · rw [List.length_append, List.length_singleton]
    omega
  · by_cases hless : k < D.length
    · rw [List.getElem?_append_left hless] at hk
      have hsame : (p.accept (sentenceText m a e)).gpsMsgArray k = p.gpsMsgArray k :=
        Function.update_of_ne (by omega) _ _
      rw [hsame]
      exact h.stored k b f hk hlt
    · have hbound := (List.getElem?_eq_some_iff.mp hk).1
      rw [List.length_append, List.length_singleton] at hbound
      obtain rfl : k = D.length := by omega
      rw [List.getElem?_concat_length] at hk
      obtain ⟨rfl, rfl⟩ := Prod.mk.inj (Option.some.inj hk)
      have hat : D.length = p.gpsMsgIDX := by omega
      rw [hat]
      exact Function.update_self _ _ _
  · have hsame : (p.accept (sentenceText m a e)).gpsMsgArray k = p.gpsMsgArray k :=
      Function.update_of_ne (by omega) _ _
    rw [hsame]
    exact h.rest k (by omega)
  · have hcopied := h.copied
    rw [List.take_of_length_le (by omega)] at hcopied
    rw [List.take_of_length_le (by rw [List.length_append, List.length_singleton]; omega),
      List.forall_mem_append, List.forall_mem_singleton, ← hcopied]
    exact Bool.and_eq_true_iff

/-- Once thirty messages are stored further sentences change nothing. -/
theorem Stores.full (h : Stores m p D) (hfull : ¬ p.gpsMsgIDX < numGpsMessages) (x : Nat × Nat) :
    Stores m p (D ++ [x]) := by
  have hcount := h.count
  refine ⟨?_, fun k a e hk hlt => ?_, h.rest, h.gga, h.vtg, ?_⟩
  · rw [List.length_append, List.length_singleton]
    omega
  · rw [List.getElem?_append_left (by omega)] at hk
    exact h.stored k a e hk hlt
  · rw [List.take_append_of_le_length (by omega)]
    exact h.copied

/-- The state of the search at the first `$` from `x` on. -/
structure Searching (m : Mem) (x : Nat) (p : Parsed) (D : List (Nat × Nat)) : Prop where
  collected : Collected m x D
  stores : Stores m p D
  -- as long as there is room the search goes on after the sentence
  after : p.gpsMsgIDX < numGpsMessages → ∀ a e, a < x → Accepts m a e → e < x

theorem Searching.advance (h : Searching m s p D) (hle : s ≤ t)
    (hnone : ∀ a, s ≤ a → a < t → m a ≠ 0x24) : Searching m t p D := by
  refine ⟨h.collected.skip hle fun a e h₁ h₂ hs => hnone a h₁ h₂ hs.accepts.start, h.stores, ?_⟩
  intro hroom a e hlt haccepts
  by_cases hless : a < s
  · have := h.after hroom a e hless haccepts
    omega
  · exact absurd haccepts.start (hnone a (by omega) hlt)

theorem Searching.copy (h : Searching m s p D) (message : List UInt8) :
    Searching m s (p.copy message) D :=
  ⟨h.collected, h.stores.copy message, h.after⟩

/-- The candidate at `s` is not accepted. -/
theorem Searching.reject (h : Searching m s p D) (hnot : ∀ e, ¬ Accepts m s e) :
    Searching m (s + 1) p D := by
  refine ⟨h.collected.skip (Nat.le_succ s) fun a e h₁ h₂ hs => ?_, h.stores, ?_⟩
  · obtain rfl : a = s := by omega
    exact hnot e hs.accepts
  · intro hroom a e hlt haccepts
    by_cases heq : a = s
    · exact absurd (heq ▸ haccepts) (hnot e)
    · have := h.after hroom a e (by omega) haccepts
      omega

/-- The candidate at `s` is accepted and stored. -/
theorem Searching.accept (h : Searching m s p D) (hs : Accepts m s e)
    (hroom : p.gpsMsgIDX < numGpsMessages) :
    Searching m (e + 1) (p.accept (sentenceText m s e)) (D ++ [(s, e)]) := by
  obtain ⟨hlt, hstar, -⟩ := hs.bounds
  have hsentence : Sentence m s e := by
    refine ⟨hs, fun a ha haccepts => ?_⟩
    have := h.after hroom a e ha haccepts
    omega
  -- a candidate that starts inside ends at the same place
  have hinside (a f : Nat) (h₁ : s < a) (h₂ : a < e + 1) (haccepts : Accepts m a f) : f = e := by
    apply hs.end_eq haccepts (Nat.le_of_lt h₁)
    by_contra hge
    obtain rfl : a = e := by omega
    rw [haccepts.start] at hstar
    exact absurd hstar (by decide)
  refine ⟨h.collected.add hsentence (by omega) ?_, h.stores.accept hroom, ?_⟩
  · intro a f h₁ h₂ hs'
    obtain rfl := hinside a f h₁ h₂ hs'.accepts
    exact hs'.outer s h₁ hs
  · intro _ a f hless haccepts
    rcases Nat.lt_trichotomy a s with hlow | rfl | hhigh
    · have := h.after hroom a f hlow haccepts
      omega
    · obtain rfl : f = e := Option.some.inj (haccepts.star.symm.trans hs.star)
      omega
    · have := hinside a f hhigh hless haccepts
      omega

/-- The candidate at `s` is passed over because the array is full. -/
theorem Searching.full (h : Searching m s p D) (hfull : ¬ p.gpsMsgIDX < numGpsMessages) :
    ∃ D', Searching m (s + 1) p D' := by
  have hafter : p.gpsMsgIDX < numGpsMessages → ∀ a e, a < s + 1 → Accepts m a e → e < s + 1 :=
    fun hroom => absurd hroom hfull
  by_cases hsentence : ∃ e, Sentence m s e
  · obtain ⟨e, hs⟩ := hsentence
    refine ⟨D ++ [(s, e)], h.collected.add hs (Nat.lt_succ_self s) ?_, h.stores.full hfull _,
      hafter⟩
    intro a f h₁ h₂
    omega
  · refine ⟨D, h.collected.skip (Nat.le_succ s) fun a e h₁ h₂ hs => ?_, h.stores, hafter⟩
    obtain rfl : a = s := by omega
    exact hsentence ⟨e, hs⟩

/-- The search ends when the next `*` is too close to the end of the buffer. -/
theorem Searching.finish (h : Searching m s p D) (hstar : strstr m 0x2a (s + 1) = some e)
    (hend : gpsBuffSize ≤ 3 + e) : Collected m (max s gpsBuffSize) D := by
  obtain ⟨hlt, -, hat, hfirst⟩ := strstr_eq_some.mp hstar
  apply h.collected.skip (Nat.le_max_left _ _)
  intro a f hge _ hs
  have hroom := hs.accepts.room
  obtain ⟨hlt', hat', hfirst'⟩ := hs.accepts.bounds
  rcases Nat.lt_trichotomy f e with hless | rfl | hmore
  · exact hfirst f (by omega) hless hat'
  · omega
  · omega

/-- The loop stores the first thirty of all sentences. -/
theorem parseLoop_stores {x fuel : Nat} (h : Searching m x p D) (hfuel : gpsBuffSize - x < fuel) :
    ∃ D', Collected m (max x gpsBuffSize) D' ∧
      Stores m (parseLoop m fuel (strstr m 0x24 x) p) D' := by
  induction fuel generalizing x p D with
  | zero => omega
  | succ fuel ih =>
      cases hstart : strstr m 0x24 x with
      | none =>
          rw [strstr_eq_none] at hstart
          refine ⟨D, (h.advance (Nat.le_max_left _ _) fun a h₁ h₂ => ?_).collected, h.stores⟩
          exact hstart a h₁ (by omega)
      | some s =>
          obtain ⟨hle, hlt, hdollar, hfirst⟩ := strstr_eq_some.mp hstart
          have hs := h.advance hle hfirst
          have hmax : max (s + 1) gpsBuffSize = max x gpsBuffSize := by omega
          simp only [parseLoop]
          cases hstar : strstr m 0x2a (s + 1) with
          | none =>
              have hnot (e : Nat) : ¬ Accepts m s e := fun haccepts => by
                rw [haccepts.star] at hstar
                exact nomatch hstar
              rw [← hmax]
              exact ih (hs.reject hnot) (by omega)
          | some e =>
              obtain ⟨helt, hebuf, -⟩ := strstr_eq_some.mp hstar
              simp only []
              split
              next hend =>
                refine ⟨D, ?_, hs.stores⟩
                rw [show max x gpsBuffSize = max s gpsBuffSize by omega]
                exact hs.finish hstar hend
              next hroom =>
                simp only [candidate]
                split
                next hsize =>
                  split
                  next hcheck =>
                    have haccepts : Accepts m s e :=
                      ⟨hdollar, hstar, by omega, ⟨hsize.1, hsize.2.1⟩, hcheck⟩
                    rw [show max x gpsBuffSize = max (e + 1) gpsBuffSize by omega]
                    exact ih (hs.accept haccepts hsize.2.2) (by omega)
                  next hcheck =>
                    have hnot (f : Nat) : ¬ Accepts m s f := fun haccepts => by
                      obtain rfl : f = e := Option.some.inj (haccepts.star.symm.trans hstar)
                      exact hcheck haccepts.checksum
                    rw [← hmax]
                    exact ih ((hs.copy _).reject hnot) (by omega)
                next hsize =>
                  rw [← hmax]
                  by_cases hfree : p.gpsMsgIDX < numGpsMessages
                  · have hnot (f : Nat) : ¬ Accepts m s f := fun haccepts => by
                      obtain rfl : f = e := Option.some.inj (haccepts.star.symm.trans hstar)
                      exact hsize ⟨haccepts.size.1, haccepts.size.2, hfree⟩
                    exact ih (hs.reject hnot) (by omega)
                  · obtain ⟨D', hD'⟩ := hs.full hfree
                    exact ih hD' (by omega)

end Collect

/-- The search as it is modelled, also past a copy without room. -/
theorem parseGPSBuffer_found (signed : Bool) (gpsBuff : Mem) :
    ∃ D : List (Nat × Nat), (D.Pairwise fun x y => x.2 < y.1) ∧
      (∀ a e, (a, e) ∈ D ↔ Sentence (cleanBuffer signed gpsBuff) a e) ∧
      Stores (cleanBuffer signed gpsBuff) (parseGPSBuffer signed gpsBuff) D := by
  have hstart : Searching (cleanBuffer signed gpsBuff) 0 resetGPSMessages [] := by
    refine ⟨⟨List.Pairwise.nil, fun a e => ?_⟩, stores_reset, fun _ a e hlt => ?_⟩
    · exact iff_of_false List.not_mem_nil fun h => absurd h.2 (Nat.not_lt_zero a)
    · exact absurd hlt (Nat.not_lt_zero a)
  obtain ⟨D, hcollected, hstores⟩ := parseLoop_stores hstart (Nat.lt_succ_self _)
  refine ⟨D, hcollected.sorted, fun a e => ?_, hstores⟩
  rw [hcollected.mem]
  refine and_iff_left_of_imp fun hs => ?_
  have hroom := hs.accepts.room
  have hlt := hs.accepts.bounds.1
  rw [Nat.zero_max]
  omega

theorem cleanChar_ne_nul {signed : Bool} (c : UInt8) : cleanChar signed c ≠ 0 := by
  rw [cleanChar]
  split
  · decide
  next hkeep =>
    rintro rfl
    exact hkeep (.inl (by decide))

/-- `inputStr` has room for a sentence unless it has the full length. -/
theorem Accepts.inputStrFits_iff {signed : Bool} {gpsBuff : Mem}
    (h : Accepts (cleanBuffer signed gpsBuff) a e) :
    inputStrFits (sentenceText (cleanBuffer signed gpsBuff) a e) = true ↔
      3 + e - a ≠ maxMsgSize := by
  have hroom := h.room
  have hmax := h.size.2
  have hchars : ∀ b ∈ sentenceText (cleanBuffer signed gpsBuff) a e, (b != 0) = true := by
    intro b hb
    obtain ⟨i, hi, rfl⟩ := List.mem_map.mp hb
    rw [List.mem_range] at hi
    rw [Mem.shift_apply, cleanBuffer, if_pos (by omega)]
    exact bne_iff_ne.mpr (cleanChar_ne_nul _)
  rw [inputStrFits, List.takeWhile_eq_self_iff.mpr hchars, sentenceText, Mem.length_bytes,
    decide_eq_true_iff]
  omega

/-- Whatever the buffer holds, the copies of `parseNMEA` have room exactly if none of its first
thirty sentences has the full length. The messages to be sent are then these sentences in the
order of the buffer, each once, and the newest GGA and VTG messages are known. -/
theorem parseGPSBuffer_stores (signed : Bool) (gpsBuff : Mem) :
    ∃ D : List (Nat × Nat), (D.Pairwise fun x y => x.2 < y.1) ∧
      (∀ a e, (a, e) ∈ D ↔ Sentence (cleanBuffer signed gpsBuff) a e) ∧
      ((parseGPSBuffer signed gpsBuff).inputStrFits = true ↔
        ∀ x ∈ D.take numGpsMessages, 3 + x.2 - x.1 ≠ maxMsgSize) ∧
      ((parseGPSBuffer signed gpsBuff).inputStrFits = true →
        Stores (cleanBuffer signed gpsBuff) (parseGPSBuffer signed gpsBuff) D) := by
  obtain ⟨D, hsorted, hmem, hstores⟩ := parseGPSBuffer_found signed gpsBuff
  refine ⟨D, hsorted, hmem, ?_, fun _ => hstores⟩
  rw [hstores.copied]
  refine forall₂_congr fun x hx => ?_
  exact ((hmem x.1 x.2).mp (List.mem_of_mem_take hx)).accepts.inputStrFits_iff

/-- A sentence with another `$` inside, alone in the buffer. -/
def innerDollar : List UInt8 :=
  [0x24, 0x47, 0x50, 0x47, 0x53, 0x41, 0x24, 0x41, 0x2c, 0x31, 0x2a, 0x33, 0x41]

set_option maxRecDepth 100000 in
/-- It is stored to be sent although it has more than one `$`. -/
theorem stores_inner_dollar :
    ((parseGPSBuffer false fun i => innerDollar.getD i 0x20).gpsMsgArray 0).sendThisMsg = true ∧
      ((parseGPSBuffer false fun i => innerDollar.getD i 0x20).gpsMsgArray 0).message =
        innerDollar ∧
      (parseGPSBuffer false fun i => innerDollar.getD i 0x20).inputStrFits = true ∧
      innerDollar.count 0x24 = 2 := by
  decide +kernel

end Speedway.Gps
