import Mathlib.Data.List.Basic

/-!
# First appearances

A list without its repetitions (`List.eraseDups`) holds each of its members once, and in the order
in which they appear first.

* `nodup_eraseDups`, `eraseDups_eq_self`: nothing is held twice, and only repetitions are left out;
* `pairwise_idxOf_eraseDups`: what appears first comes first;
* `eraseDups_concat_of_mem`, `eraseDups_concat_of_not_mem`: what one more member at the end changes.
-/

namespace StructuralModel

variable {α : Type} [BEq α] [LawfulBEq α]

/-- A list without its repetitions has none. -/
theorem nodup_eraseDups (l : List α) : l.eraseDups.Nodup := by
  induction hn : l.length using Nat.strongRecOn generalizing l with
  | ind n ih =>
    cases l with
    | nil => simp
    | cons a l =>
      rw [List.eraseDups_cons, List.nodup_cons]
      refine ⟨by simp [List.mem_eraseDups], ih _ ?_ _ rfl⟩
      have := List.length_filter_le (fun b => !b == a) l
      rw [List.length_cons] at hn
      omega

/-- Nothing is left out of a list without repetitions. -/
theorem eraseDups_eq_self {l : List α} (h : l.Nodup) : l.eraseDups = l := by
  induction l with
  | nil => rfl
  | cons a l ih =>
    obtain ⟨ha, hl⟩ := List.nodup_cons.1 h
    have hrest : l.filter (fun b => !b == a) = l := by
      refine List.filter_eq_self.2 fun b hb => ?_
      have hne : b ≠ a := fun heq => ha (heq ▸ hb)
      rw [beq_false_of_ne hne, Bool.not_false]
    rw [List.eraseDups_cons, hrest, ih hl]

/-- What is in a list already changes nothing at its end. -/
theorem eraseDups_concat_of_mem {l : List α} {a : α} (h : a ∈ l) :
    (l ++ [a]).eraseDups = l.eraseDups := by
  simp [List.eraseDups_append, List.removeAll, h]

/-- What is new at the end of a list comes last. -/
theorem eraseDups_concat_of_not_mem {l : List α} {a : α} (h : a ∉ l) :
    (l ++ [a]).eraseDups = l.eraseDups ++ [a] := by
  simp [List.eraseDups_append, List.removeAll, h, List.eraseDups_cons]

/-- What is left out of a list does not matter to which of two others appears first. -/
theorem idxOf_filter_lt_iff {p : α → Bool} (l : List α) {a b : α} (ha : p a = true)
    (hb : p b = true) : (l.filter p).idxOf a < (l.filter p).idxOf b ↔ l.idxOf a < l.idxOf b := by
  induction l with
  | nil => rfl
  | cons x l ih =>
    cases hx : p x with
    | true =>
      rw [List.filter_cons_of_pos hx, List.idxOf_cons, List.idxOf_cons, List.idxOf_cons,
        List.idxOf_cons]
      -- One of the two is the head, or both of them appear behind it.
      cases x == a <;> cases x == b <;> simp [ih]
    | false =>
      have hne {c : α} (hc : p c = true) : x ≠ c := by
        rintro rfl
        rw [hc] at hx
        cases hx
      rw [List.filter_cons_of_neg (by simp [hx]), List.idxOf_cons_ne _ (hne ha),
        List.idxOf_cons_ne _ (hne hb), ih, Nat.succ_lt_succ_iff]

/-- A list without its repetitions is in order of first appearance. -/
theorem pairwise_idxOf_eraseDups (l : List α) :
    l.eraseDups.Pairwise fun a b => l.idxOf a < l.idxOf b := by
  induction hn : l.length using Nat.strongRecOn generalizing l with
  | ind n ih =>
    cases l with
    | nil => simp
    | cons x l =>
      have hle := List.length_filter_le (fun b => !b == x) l
      rw [List.length_cons] at hn
      have hrest := ih _ (by omega) (l.filter fun b => !b == x) rfl
      -- All that is behind the head differs from it.
      have hbehind {a : α} (ha : a ∈ (l.filter fun b => !b == x).eraseDups) : (!a == x) = true :=
        (List.mem_filter.1 (List.mem_eraseDups.1 ha)).2
      have hidx {a : α} (ha : (!a == x) = true) : (x :: l).idxOf a = l.idxOf a + 1 := by
        refine List.idxOf_cons_ne l fun heq => ?_
        rw [heq, beq_self_eq_true] at ha
        cases ha
      rw [List.eraseDups_cons, List.pairwise_cons]
      refine ⟨fun a ha => ?_, hrest.imp_of_mem fun {a b} ha hb hlt => ?_⟩
      · rw [hidx (hbehind ha), List.idxOf_cons_self]
        exact Nat.succ_pos _
      · rw [hidx (hbehind ha), hidx (hbehind hb)]
        exact Nat.succ_lt_succ ((idxOf_filter_lt_iff l (hbehind ha) (hbehind hb)).1 hlt)

end StructuralModel
