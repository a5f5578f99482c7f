import StructuralModel.Proofs.Text.Depth
import StructuralModel.Text.Split

/-!
# Splitting at top level

A text is split at the first place where the pattern stands at brace depth zero
(`splitOnce_eq_some_iff`), and it is not split iff there is no such place
(`splitOnce_eq_none_iff`). So what splitting finds does not depend on how it goes through the text:

* `splitOnce_append_left`: what cannot start the pattern is passed over;
* `splitOnce_eq_none_of_suffix`, `splitOnce_eq_none_of_prefix`: a part of a text without pattern
  has no pattern;
* `splitAll_append`, `exists_append_of_mem_splitAll`: pieces are parts of the text that are cut at
  depth zero.
-/

namespace StructuralModel.Text

variable {pattern cs ds before after : List Char}

/-- A text is split at the first place where the pattern stands at depth zero. -/
theorem splitOnce_eq_some_iff (hp : pattern ≠ []) :
    splitOnce pattern cs = some (before, after) ↔
      cs = before ++ pattern ++ after ∧ depth 0 before = 0 ∧
        ∀ b a, cs = b ++ pattern ++ a → depth 0 b = 0 → before.length ≤ b.length := by
  fun_induction splitOnce pattern cs generalizing before with
  | case1 cs h => exact absurd (List.isEmpty_iff.1 h) hp
  | case2 cs _ hpre =>
    obtain ⟨rest, rfl⟩ := List.isPrefixOf_iff_prefix.1 hpre
    constructor
    · intro h
      cases h
      exact ⟨by simp, rfl, fun b _ _ _ => Nat.zero_le _⟩
    · rintro ⟨h, -, hmin⟩
      -- The pattern stands at the very start, so nothing is before it.
      obtain rfl : before = [] :=
        List.length_eq_zero_iff.1 (Nat.le_zero.1 (hmin [] rest rfl rfl))
      simp_all
  | case3 cs _ hpre hunit =>
    refine ⟨fun h => (by cases h), ?_⟩
    rintro ⟨h, hd, -⟩
    cases before with
    | nil => exact absurd (List.isPrefixOf_iff_prefix.2 ⟨after, h.symm⟩) hpre
    | cons b before =>
      exact absurd hd (closing_eq_none_iff.1 hunit (b :: before) (pattern ++ after)
        (by rw [h, List.append_assoc]) (List.cons_ne_nil _ _))
  | case4 cs _ hpre first rest hunit ih =>
    obtain ⟨hcs, hne, hfirst, hmin⟩ := closing_eq_some_iff.1 hunit
    -- A place at depth zero is at the start or behind the first unit.
    have behind : ∀ b a, cs = b ++ pattern ++ a → depth 0 b = 0 →
        ∃ b', b = first ++ b' ∧ rest = b' ++ pattern ++ a ∧ depth 0 b' = 0 := by
      intro b a h hb
      cases b with
      | nil => exact absurd (List.isPrefixOf_iff_prefix.2 ⟨a, h.symm⟩) hpre
      | cons x b =>
        have hlen := hmin (x :: b) (pattern ++ a) (by rw [h, List.append_assoc])
          (List.cons_ne_nil _ _) hb
        have happ : first ++ rest = (x :: b) ++ (pattern ++ a) := by
          rw [← hcs, h, List.append_assoc]
        obtain ⟨b', hb', hrest⟩ | ⟨b', hb', hrest⟩ := List.append_eq_append_iff.1 happ
        · refine ⟨b', hb', by rw [hrest, List.append_assoc], ?_⟩
          rw [hb', depth_append, hfirst] at hb
          exact hb
        · obtain rfl : b' = [] := by
            have := congrArg List.length hb'
            rw [List.length_append] at this
            exact List.length_eq_zero_iff.1 (by omega)
          rw [List.append_nil] at hb'
          exact ⟨[], by rw [hb', List.append_nil], by simpa using hrest.symm, rfl⟩
    rw [Option.map_eq_some_iff]
    constructor
    · rintro ⟨⟨before', after'⟩, h, heq⟩
      cases heq
      obtain ⟨hrest, hd, hmin'⟩ := ih.1 h
      refine ⟨by rw [hcs, hrest]; simp, by rw [depth_append, hfirst, hd], fun b a h hb => ?_⟩
      obtain ⟨b', rfl, hr, hb'⟩ := behind b a h hb
      rw [List.length_append, List.length_append]
      exact Nat.add_le_add_left (hmin' b' a hr hb') _
    · rintro ⟨h, hd, hmin'⟩
      obtain ⟨before', rfl, hr, hd'⟩ := behind before after h hd
      refine ⟨(before', after), ih.2 ⟨hr, hd', fun b a h' hb => ?_⟩, rfl⟩
      have := hmin' (first ++ b) a (by rw [hcs, h']; simp) (by rw [depth_append, hfirst, hb])
      simp only [List.length_append] at this
      omega

/-- A text is not split iff the pattern never stands at depth zero. -/
theorem splitOnce_eq_none_iff (hp : pattern ≠ []) :
    splitOnce pattern cs = none ↔ ∀ b a, cs = b ++ pattern ++ a → depth 0 b ≠ 0 := by
  constructor
  · intro h b a
    -- By induction on the length of what stands before: a place implies a first one.
    induction hn : b.length using Nat.strongRecOn generalizing b a with
    | ind n ih =>
      intro hb hd
      have hsome : splitOnce pattern cs = some (b, a) :=
        (splitOnce_eq_some_iff hp).2 ⟨hb, hd, fun b' a' hb' hd' => Nat.le_of_not_lt fun hlt =>
          ih b'.length (hn ▸ hlt) b' a' rfl hb' hd'⟩
      rw [h] at hsome
      cases hsome
  · intro h
    cases hs : splitOnce pattern cs with
    | none => rfl
    | some p =>
      obtain ⟨before, after⟩ := p
      obtain ⟨hcs, hd, -⟩ := (splitOnce_eq_some_iff hp).1 hs
      exact absurd hd (h _ _ hcs)

/-- A pattern at the start splits a text there. -/
theorem splitOnce_self_append (hp : pattern ≠ []) (cs : List Char) :
    splitOnce pattern (pattern ++ cs) = some ([], cs) :=
  (splitOnce_eq_some_iff hp).2 ⟨rfl, rfl, fun _ _ _ _ => Nat.zero_le _⟩

/-- What ends at depth zero and has outside no character with which the pattern starts is passed
    over. -/
theorem splitOnce_append_left {c : Char} (hc : c ≠ '{' ∧ c ≠ '}') (hd : depth 0 cs = 0)
    (h : c ∉ outside 0 cs) :
    splitOnce (c :: pattern) (cs ++ ds) =
      (splitOnce (c :: pattern) ds).map fun (before, after) => (cs ++ before, after) := by
  have hp : c :: pattern ≠ [] := List.cons_ne_nil _ _
  -- The pattern does not start within `cs`.
  have behind : ∀ b a, cs ++ ds = b ++ (c :: pattern) ++ a → depth 0 b = 0 →
      ∃ b', b = cs ++ b' ∧ ds = b' ++ (c :: pattern) ++ a ∧ depth 0 b' = 0 := by
    intro b a happ hb
    rw [List.append_assoc] at happ
    obtain ⟨b', rfl, hds⟩ | ⟨b', hcs, hr⟩ := List.append_eq_append_iff.1 happ
    · rw [depth_append, hd] at hb
      exact ⟨b', rfl, by rw [hds, List.append_assoc], hb⟩
    · cases b' with
      | nil =>
        rw [List.append_nil] at hcs
        exact ⟨[], by rw [hcs, List.append_nil], by simpa using hr.symm, rfl⟩
      | cons x b' =>
        obtain ⟨rfl, -⟩ := List.cons.inj hr
        exact absurd (mem_outside.2 ⟨hc.1, hc.2, b, b', hcs, hb⟩) h
  cases hs : splitOnce (c :: pattern) ds with
  | none =>
    rw [Option.map_none, splitOnce_eq_none_iff hp]
    intro b a happ hb
    obtain ⟨b', -, hds, hb'⟩ := behind b a happ hb
    exact (splitOnce_eq_none_iff hp).1 hs b' a hds hb'
  | some p =>
    obtain ⟨before, after⟩ := p
    obtain ⟨hds, hb, hmin⟩ := (splitOnce_eq_some_iff hp).1 hs
    rw [Option.map_some, splitOnce_eq_some_iff hp]
    refine ⟨by rw [hds]; simp, by rw [depth_append, hd, hb], fun b a happ hb => ?_⟩
    obtain ⟨b', rfl, hds', hb'⟩ := behind b a happ hb
    rw [List.length_append, List.length_append]
    exact Nat.add_le_add_left (hmin b' a hds' hb') _

/-- Behind a place at depth zero there is no pattern in a text without one. -/
theorem splitOnce_eq_none_of_suffix (hp : pattern ≠ []) (hd : depth 0 cs = 0)
    (h : splitOnce pattern (cs ++ ds) = none) : splitOnce pattern ds = none := by
  rw [splitOnce_eq_none_iff hp] at h ⊢
  intro b a hb hd'
  exact h (cs ++ b) a (by rw [hb]; simp) (by rw [depth_append, hd, hd'])

/-- At the start of a text without pattern there is no pattern. -/
theorem splitOnce_eq_none_of_prefix (hp : pattern ≠ [])
    (h : splitOnce pattern (cs ++ ds) = none) : splitOnce pattern cs = none := by
  rw [splitOnce_eq_none_iff hp] at h ⊢
  exact fun b a hb => h b (a ++ ds) (by rw [hb]; simp)

/-- There is no pattern before the first pattern. -/
theorem splitOnce_before_eq_none (h : splitOnce pattern cs = some (before, after)) :
    splitOnce pattern before = none := by
  have hp := ne_nil_of_splitOnce h
  obtain ⟨rfl, -, hmin⟩ := (splitOnce_eq_some_iff hp).1 h
  refine (splitOnce_eq_none_iff hp).2 fun b a hb hd => ?_
  have hlen := hmin b (a ++ pattern ++ after) (by rw [hb]; simp) hd
  have := List.length_pos_iff.2 hp
  rw [hb] at hlen
  simp only [List.length_append] at hlen
  omega

/-- One character splits a text iff it is outside. -/
theorem splitOnce_singleton_eq_none_iff {c : Char} (hc : c ≠ '{' ∧ c ≠ '}') :
    splitOnce [c] cs = none ↔ c ∉ outside 0 cs := by
  rw [splitOnce_eq_none_iff (List.cons_ne_nil _ _), mem_outside]
  constructor
  · rintro h ⟨-, -, b, a, hb, hd⟩
    exact h b a (by rw [hb]; simp) hd
  · intro h b a hb hd
    exact h ⟨hc.1, hc.2, b, a, by rw [hb]; simp, hd⟩

/-- A pattern whose first character is not outside splits nothing. -/
theorem splitOnce_eq_none_of_not_mem {c : Char} (hc : c ≠ '{' ∧ c ≠ '}')
    (h : c ∉ outside 0 cs) : splitOnce (c :: pattern) cs = none := by
  rw [splitOnce_eq_none_iff (List.cons_ne_nil _ _)]
  intro b a hb hd
  exact h (mem_outside.2 ⟨hc.1, hc.2, b, pattern ++ a, by rw [hb]; simp, hd⟩)

/-! ## Pieces -/

/-- A text without delimiter is one piece. -/
theorem splitAll_of_splitOnce_eq_none (h : splitOnce pattern cs = none) :
    splitAll pattern cs = [cs] := by
  rw [splitAll]
  split
  · rfl
  · next h' => rw [h] at h'; cases h'

/-- The first piece ends at the first delimiter. -/
theorem splitAll_of_splitOnce_eq_some (h : splitOnce pattern cs = some (before, after)) :
    splitAll pattern cs = before :: splitAll pattern after := by
  rw [splitAll]
  split
  · next h' => rw [h] at h'; cases h'
  · next h' =>
    rw [h] at h'
    cases h'
    rfl

/-- The first piece is what a text starts with. -/
theorem prefix_of_splitAll {piece : List Char} {pieces : List (List Char)}
    (h : splitAll pattern cs = piece :: pieces) : piece <+: cs := by
  cases hs : splitOnce pattern cs with
  | none =>
    rw [splitAll_of_splitOnce_eq_none hs] at h
    obtain rfl := (List.cons.inj h).1
    exact List.prefix_rfl
  | some parts =>
    rw [splitAll_of_splitOnce_eq_some hs] at h
    rw [← (List.cons.inj h).1, ← append_of_splitOnce hs, List.append_assoc]
    exact List.prefix_append _ _

/-- There is always a piece. -/
theorem splitAll_ne_nil (pattern cs : List Char) : splitAll pattern cs ≠ [] := by
  rw [splitAll]
  split <;> exact List.cons_ne_nil _ _

/-- A text is its pieces with the delimiter between them. -/
theorem intercalate_splitAll (pattern cs : List Char) :
    pattern.intercalate (splitAll pattern cs) = cs := by
  fun_induction splitAll pattern cs with
  | case1 cs h => simp
  | case2 cs before after h ih =>
    have hcs := append_of_splitOnce h
    cases hpieces : splitAll pattern after with
    | nil => exact absurd hpieces (splitAll_ne_nil pattern after)
    | cons piece pieces =>
      rw [hpieces] at ih
      rw [← hcs, ← ih]
      simp [List.intercalate, List.intersperse]

/-- A piece without the delimiter, the delimiter, and the other pieces. -/
theorem splitAll_append {c : Char} (hc : c ≠ '{' ∧ c ≠ '}') (hd : depth 0 cs = 0)
    (h : c ∉ outside 0 cs) : splitAll [c] (cs ++ c :: ds) = cs :: splitAll [c] ds := by
  apply splitAll_of_splitOnce_eq_some
  rw [splitOnce_append_left hc hd h,
    show c :: ds = [c] ++ ds from rfl, splitOnce_self_append (List.cons_ne_nil _ _)]
  simp

/-- A piece of a balanced text is a balanced part of it without the delimiter, and what stands
    before it ends at depth zero. -/
theorem exists_append_of_mem_splitAll {piece : List Char} (h : piece ∈ splitAll pattern cs)
    (hb : Balanced cs) (hp : pattern ≠ []) (hbp : Balanced pattern) :
    Balanced piece ∧ splitOnce pattern piece = none ∧
      ∃ before after, cs = before ++ piece ++ after ∧ Balanced before := by
  fun_induction splitAll pattern cs with
  | case1 cs hs =>
    obtain rfl := List.mem_singleton.1 h
    exact ⟨hb, hs, [], [], by simp, balanced_nil⟩
  | case2 cs first rest hs ih =>
    obtain ⟨hcs, hd, -⟩ := (splitOnce_eq_some_iff hp).1 hs
    rw [hcs, List.append_assoc] at hb
    obtain ⟨hfirst, hrest⟩ := hb.of_append hd
    rcases List.mem_cons.1 h with rfl | h
    · exact ⟨hfirst, splitOnce_before_eq_none hs, [], pattern ++ rest, by rw [hcs]; simp,
        balanced_nil⟩
    · obtain ⟨hpiece, hnone, before, after, hr, hbefore⟩ :=
        ih h (hrest.of_append hbp.depth_eq).2
      exact ⟨hpiece, hnone, first ++ pattern ++ before, after, by rw [hcs, hr]; simp,
        (hfirst.append hbp).append hbefore⟩

end StructuralModel.Text
