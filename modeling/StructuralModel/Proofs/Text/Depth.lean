import StructuralModel.Text.Braces

/-!
# Brace depth

The *depth* behind a text is what a counter shows that goes up at every `{` and down at every `}`,
but never below zero (`depth`). A text is *balanced* if the counter comes back to zero and never
has to stay there at a `}` (`Balanced`). What stands at depth zero, braces apart, is *outside*
(`outside`): only there do characters have a meaning.

* `closing_eq_some_iff`, `closing_eq_none_iff`: a block ends at the first place where the counter
  is back at zero;
* `mem_outside`: a character is outside iff the counter shows zero in front of it;
* `outside_append`, `level?_append`: counting goes on where it stopped.
-/

namespace StructuralModel.Text

/-- The brace depth behind `cs`, given the depth in front of it. -/
def depth (d : Nat) (cs : List Char) : Nat :=
  cs.foldl nest d

@[simp] theorem depth_nil (d : Nat) : depth d [] = d := rfl

@[simp] theorem depth_cons (d : Nat) (c : Char) (cs : List Char) :
    depth d (c :: cs) = depth (nest d c) cs := rfl

theorem depth_append (d : Nat) (cs ds : List Char) :
    depth d (cs ++ ds) = depth (depth d cs) ds :=
  List.foldl_append

/-- The brace depth behind `c`; nothing if `c` closes a brace and none is open. -/
def nest? (d : Nat) (c : Char) : Option Nat :=
  if c = '}' ∧ d = 0 then none else some (nest d c)

/-- The brace depth behind `cs`; nothing if some brace is closed that is not open. -/
def level? (d : Nat) (cs : List Char) : Option Nat :=
  cs.foldlM nest? d

@[simp] theorem level?_nil (d : Nat) : level? d [] = some d := rfl

@[simp] theorem level?_cons (d : Nat) (c : Char) (cs : List Char) :
    level? d (c :: cs) = (nest? d c).bind fun e => level? e cs := rfl

theorem level?_append (d : Nat) (cs ds : List Char) :
    level? d (cs ++ ds) = (level? d cs).bind fun e => level? e ds :=
  List.foldlM_append

theorem depth_of_level? {d e : Nat} {cs : List Char} (h : level? d cs = some e) :
    depth d cs = e := by
  induction cs generalizing d with
  | nil => exact Option.some.inj h
  | cons c cs ih =>
    obtain ⟨d', hc, hcs⟩ := Option.bind_eq_some_iff.1 h
    unfold nest? at hc
    split at hc
    · cases hc
    · cases hc
      exact ih hcs

/-- A text closes the braces that it opens, and no other ones. -/
def Balanced (cs : List Char) : Prop :=
  level? 0 cs = some 0

instance (cs : List Char) : Decidable (Balanced cs) :=
  inferInstanceAs (Decidable (level? 0 cs = some 0))

theorem balanced_nil : Balanced [] := rfl

namespace Balanced

variable {cs ds : List Char}

theorem depth_eq (h : Balanced cs) : depth 0 cs = 0 :=
  depth_of_level? h

theorem append (h : Balanced cs) (h' : Balanced ds) : Balanced (cs ++ ds) := by
  rw [Balanced, level?_append, show level? 0 cs = some 0 from h]
  exact h'

/-- A balanced text falls into balanced parts wherever it is cut at depth zero. -/
theorem of_append (h : Balanced (cs ++ ds)) (hd : depth 0 cs = 0) :
    Balanced cs ∧ Balanced ds := by
  rw [Balanced, level?_append] at h
  obtain ⟨e, he, hds⟩ := Option.bind_eq_some_iff.1 h
  obtain rfl : e = 0 := (depth_of_level? he).symm.trans hd
  exact ⟨he, hds⟩

end Balanced

/-! ## Characters outside of braces -/

/-- The characters of `cs` at depth zero, braces apart, given the depth in front of it. -/
def outside (d : Nat) : List Char → List Char
  | [] => []
  | c :: cs =>
    if d = 0 ∧ c ≠ '{' ∧ c ≠ '}' then c :: outside (nest d c) cs else outside (nest d c) cs

@[simp] theorem outside_nil (d : Nat) : outside d [] = [] := rfl

theorem outside_append (d : Nat) (cs ds : List Char) :
    outside d (cs ++ ds) = outside d cs ++ outside (depth d cs) ds := by
  induction cs generalizing d with
  | nil => rfl
  | cons c cs ih =>
    simp only [List.cons_append, outside, depth_cons, ih]
    split <;> rfl

/-- Behind a balanced text the outside starts anew. -/
theorem outside_append_of_balanced {cs : List Char} (h : Balanced cs) (ds : List Char) :
    outside 0 (cs ++ ds) = outside 0 cs ++ outside 0 ds := by
  rw [outside_append, h.depth_eq]

/-- Balanced texts, put together, are balanced, and what is outside of one of them is outside. -/
theorem balanced_flatten {texts : List (List Char)} (h : ∀ text ∈ texts, Balanced text) :
    Balanced texts.flatten ∧
      ∀ c, c ∈ outside 0 texts.flatten ↔ ∃ text ∈ texts, c ∈ outside 0 text := by
  induction texts with
  | nil => exact ⟨balanced_nil, fun c => by simp⟩
  | cons text texts ih =>
    have htext := h text List.mem_cons_self
    obtain ⟨hb, hmem⟩ := ih fun text ht => h text (List.mem_cons_of_mem _ ht)
    refine ⟨htext.append hb, fun c => ?_⟩
    rw [List.flatten_cons, outside_append_of_balanced htext, List.mem_append, hmem]
    simp

/-- A character is outside iff it is no brace and stands at depth zero. -/
theorem mem_outside {d : Nat} {c : Char} {cs : List Char} :
    c ∈ outside d cs ↔
      c ≠ '{' ∧ c ≠ '}' ∧ ∃ before after, cs = before ++ c :: after ∧ depth d before = 0 := by
  constructor
  · intro h
    induction cs generalizing d with
    | nil => cases h
    | cons x cs ih =>
      have later : c ∈ outside (nest d x) cs → c ≠ '{' ∧ c ≠ '}' ∧
          ∃ before after, x :: cs = before ++ c :: after ∧ depth d before = 0 := fun h => by
        obtain ⟨h₁, h₂, before, after, rfl, hd⟩ := ih h
        exact ⟨h₁, h₂, x :: before, after, rfl, hd⟩
      rw [outside] at h
      split at h
      case isTrue hx =>
        rcases List.mem_cons.1 h with rfl | h
        · exact ⟨hx.2.1, hx.2.2, [], cs, rfl, hx.1⟩
        · exact later h
      case isFalse => exact later h
  · rintro ⟨h₁, h₂, before, after, rfl, hd⟩
    rw [outside_append, hd, outside, if_pos ⟨rfl, h₁, h₂⟩]
    exact List.mem_append_right _ List.mem_cons_self

theorem mem_of_mem_outside {d : Nat} {c : Char} {cs : List Char} (h : c ∈ outside d cs) :
    c ∈ cs := by
  obtain ⟨-, -, before, after, rfl, -⟩ := mem_outside.1 h
  exact List.mem_append_right _ List.mem_cons_self

/-- A character that is no brace leaves the depth as it is. -/
theorem nest_of_ne {d : Nat} {c : Char} (h : c ≠ '{') (h' : c ≠ '}') : nest d c = d := by
  rw [nest, if_neg h, if_neg h']

/-- Only a closing brace leads back to depth zero. -/
theorem eq_of_nest_eq_zero {d : Nat} {c : Char} (hd : 0 < d) (h : nest d c = 0) : c = '}' := by
  unfold nest at h
  split at h
  · cases h
  · split at h
    · assumption
    · exact absurd h (Nat.ne_of_gt hd)

/-- Without braces a text is balanced and all of it is outside. -/
theorem balanced_of_no_brace {cs : List Char} (h : ∀ c ∈ cs, c ≠ '{' ∧ c ≠ '}') :
    Balanced cs ∧ outside 0 cs = cs := by
  induction cs with
  | nil => exact ⟨rfl, rfl⟩
  | cons c cs ih =>
    obtain ⟨h₁, h₂⟩ := h c List.mem_cons_self
    obtain ⟨hb, ho⟩ := ih fun c hc => h c (List.mem_cons_of_mem _ hc)
    refine ⟨?_, ?_⟩
    · rw [Balanced, level?_cons, nest?, if_neg fun h => h₂ h.1, nest_of_ne h₁ h₂]
      exact hb
    · rw [outside, if_pos ⟨rfl, h₁, h₂⟩, nest_of_ne h₁ h₂, ho]

/-! ## Blocks -/

/-- A block ends at the first place where the depth is zero. -/
theorem closing_eq_some_iff {d : Nat} {cs block after : List Char} :
    closing d cs = some (block, after) ↔
      cs = block ++ after ∧ block ≠ [] ∧ depth d block = 0 ∧
        ∀ b a, cs = b ++ a → b ≠ [] → depth d b = 0 → block.length ≤ b.length := by
  induction cs generalizing d block with
  | nil =>
    refine ⟨fun h => (by cases h), ?_⟩
    rintro ⟨h, hne, -⟩
    exact absurd (List.append_eq_nil_iff.1 h.symm).1 hne
  | cons c rest ih =>
    rw [closing]
    split
    case isTrue hc =>
      constructor
      · intro h
        cases h
        refine ⟨rfl, List.cons_ne_nil _ _, hc, fun b _ _ hb _ => ?_⟩
        exact List.length_pos_iff.2 hb
      · rintro ⟨h, hne, hd, hmin⟩
        -- The first character alone leaves the depth at zero, so the block is no longer than that.
        have hlen : block.length ≤ 1 := hmin [c] rest rfl (List.cons_ne_nil _ _) hc
        obtain ⟨x, block, rfl⟩ := List.exists_cons_of_ne_nil hne
        obtain rfl : block = [] := by
          cases block with
          | nil => rfl
          | cons _ _ => simp at hlen
        cases h
        rfl
    case isFalse hc =>
      rw [Option.map_eq_some_iff]
      constructor
      · rintro ⟨⟨block', after'⟩, h, heq⟩
        cases heq
        obtain ⟨rfl, hne, hd, hmin⟩ := ih.1 h
        refine ⟨rfl, List.cons_ne_nil _ _, hd, fun b a hba hb hdb => ?_⟩
        obtain ⟨x, b, rfl⟩ := List.exists_cons_of_ne_nil hb
        obtain ⟨rfl, hrest⟩ := List.cons.inj hba
        have hb' : b ≠ [] := fun h => hc (by simpa [h] using hdb)
        exact Nat.succ_le_succ (hmin b a hrest hb' hdb)
      · rintro ⟨h, hne, hd, hmin⟩
        obtain ⟨x, block, rfl⟩ := List.exists_cons_of_ne_nil hne
        obtain ⟨rfl, hrest⟩ := List.cons.inj h
        have hne' : block ≠ [] := fun h => hc (by simpa [h] using hd)
        refine ⟨(block, after), ih.2 ⟨hrest, hne', hd, fun b a hba hb hdb => ?_⟩, rfl⟩
        exact Nat.le_of_succ_le_succ
          (hmin (c :: b) a (by rw [hba]; rfl) (List.cons_ne_nil _ _) hdb)

/-- A block has no end iff the depth is never zero behind its first character. -/
theorem closing_eq_none_iff {d : Nat} {cs : List Char} :
    closing d cs = none ↔ ∀ b a, cs = b ++ a → b ≠ [] → depth d b ≠ 0 := by
  induction cs generalizing d with
  | nil =>
    refine ⟨fun _ b a h hb => ?_, fun _ => rfl⟩
    exact absurd (List.append_eq_nil_iff.1 h.symm).1 hb
  | cons c rest ih =>
    rw [closing]
    split
    case isTrue hc =>
      refine ⟨fun h => (by cases h), fun h => ?_⟩
      exact absurd hc (h [c] rest rfl (List.cons_ne_nil _ _))
    case isFalse hc =>
      rw [Option.map_eq_none_iff, ih]
      constructor
      · intro h b a hba hb hd
        obtain ⟨x, b, rfl⟩ := List.exists_cons_of_ne_nil hb
        obtain ⟨rfl, hrest⟩ := List.cons.inj hba
        exact h b a hrest (fun h => hc (by simpa [h] using hd)) hd
      · intro h b a hba hb
        exact h (c :: b) a (by rw [hba]; rfl) (List.cons_ne_nil _ _)

/-- Inside a block every brace that is closed is open. -/
theorem level?_of_closing {d : Nat} {cs block after : List Char} (hd : 0 < d)
    (h : closing d cs = some (block, after)) : level? d block = some 0 := by
  induction cs generalizing d block with
  | nil => cases h
  | cons c rest ih =>
    have hc : nest? d c = some (nest d c) := if_neg fun h => (Nat.ne_of_gt hd) h.2
    rw [closing] at h
    split at h
    case isTrue h0 =>
      cases h
      rw [level?_cons, hc, h0]
      rfl
    case isFalse h0 =>
      obtain ⟨⟨block', after'⟩, h', heq⟩ := Option.map_eq_some_iff.1 h
      cases heq
      rw [level?_cons, hc]
      exact ih (Nat.pos_of_ne_zero h0) h'

/-- What a block is: it starts with a brace, and its end is the first place at depth zero. -/
theorem isBlock_iff {cs : List Char} :
    isBlock cs = true ↔ cs.head? = some '{' ∧ unit? cs = some (cs, []) := by
  rw [isBlock, Bool.and_eq_true, beq_iff_eq, Option.any_eq_true]
  refine and_congr_right fun _ => ⟨?_, fun h => ⟨(cs, []), h, rfl⟩⟩
  rintro ⟨⟨block, after⟩, h, ha⟩
  obtain rfl : after = [] := List.isEmpty_iff.1 ha
  obtain rfl : block = cs := by simpa using append_of_closing h
  exact h

/-- A block is balanced, and nothing of it is outside. -/
theorem balanced_of_isBlock {cs : List Char} (h : isBlock cs = true) :
    Balanced cs ∧ outside 0 cs = [] := by
  obtain ⟨hhead, hunit⟩ := isBlock_iff.1 h
  obtain ⟨-, -, -, hmin⟩ := closing_eq_some_iff.1 hunit
  cases cs with
  | nil => cases hhead
  | cons c cs =>
    obtain rfl : c = '{' := Option.some.inj hhead
    refine ⟨?_, List.eq_nil_iff_forall_not_mem.2 fun x hx => ?_⟩
    · obtain ⟨⟨block, after⟩, h', heq⟩ := Option.map_eq_some_iff.1 (show
        (closing 1 cs).map (fun p => ('{' :: p.1, p.2)) = some ('{' :: cs, [])
        from hunit)
      cases heq
      exact level?_of_closing (d := 1) Nat.one_pos h'
    · obtain ⟨hx, -, before, after, heq, hd⟩ := mem_outside.1 hx
      cases before with
      | nil => exact hx (List.cons.inj heq).1.symm
      | cons b before =>
        have hlen := hmin (b :: before) (x :: after) heq (List.cons_ne_nil _ _) hd
        have := congrArg List.length heq
        simp only [List.length_append, List.length_cons] at this hlen
        omega

end StructuralModel.Text
