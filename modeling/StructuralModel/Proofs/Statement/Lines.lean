import StructuralModel.Proofs.Statement.Compact

/-!
# Reading lines

A line *keeps* a compact text if a scan of it keeps the characters of that text, and everything
else in the line is layout (`Keeps`). Compact texts keep themselves, and lines are put together
from parts that keep their own texts.

When lines are read one after the other, a line that ends open is continued by the next one
(`joinOpen`); if no line but the last one ends open, each line is a statement of its own.

* `ofSource_lines`: the statements of lines are the texts that they keep, joined where they end
  open;
* `joinOpen_eq_self`: without lines that end open, nothing is joined;
* `length_joinOpen_lt`: otherwise there are fewer statements than lines.
-/

namespace StructuralModel

open Text (outside)
open Statement (locate isContinuation)

/-- A scan of `line` keeps the characters of `cs` and no other ones. -/
def Keeps (line cs : List Char) : Prop :=
  ∀ (complete : List Statement) (s : Statement) (isOpen : Bool) (start : Nat),
    ∃ chars, chars.map Prod.fst = cs ∧
      Scan.run { complete, current := s, isOpen } (locate start line) =
        some { complete, current := ⟨s.chars ++ chars⟩, isOpen := Scan.openBehind isOpen cs }

namespace Scan

theorem openBehind_append (isOpen : Bool) (cs ds : List Char) :
    openBehind (openBehind isOpen cs) ds = openBehind isOpen (cs ++ ds) := by
  rw [openBehind, openBehind, openBehind, List.getLast?_append]
  cases ds.getLast? <;> rfl

/-- From any depth, a scan keeps every character of a text that leads back to depth zero and has
    only characters of words outside. -/
theorem run_compact {complete : List Statement} {s : Statement} {isOpen : Bool} {start d : Nat}
    {cs : List Char} (hl : Text.level? d cs = some 0)
    (hw : ∀ c ∈ outside d cs, Token.isWordChar c = true) :
    run { complete, current := s, depth := d, isOpen } (locate start cs) =
      some { complete, current := ⟨s.chars ++ locate start cs⟩,
             isOpen := openBehind isOpen cs } := by
  induction cs generalizing s isOpen start d with
  | nil =>
    obtain rfl : d = 0 := Option.some.inj hl
    simp [locate, openBehind]
  | cons c cs ih =>
    obtain ⟨e, hc, hcs⟩ := Option.bind_eq_some_iff.1 hl
    rw [locate, run_cons, openBehind_cons, ← List.singleton_append, ← List.append_assoc]
    rw [Text.nest?] at hc
    split at hc
    case isTrue => cases hc
    case isFalse hbrace =>
      cases hc
      by_cases hd : 0 < d
      · have hw : ∀ x ∈ outside (Text.nest d c) cs, Token.isWordChar x = true := by
          rwa [outside, if_neg fun h => (Nat.ne_of_gt hd) h.1] at hw
        rw [step, if_pos hd]
        refine (ih hcs hw).trans ?_
        congr 2
        cases cs with
        | cons x cs => rw [openBehind_cons, openBehind_cons]
        | nil =>
          -- The last brace closes what was open, and does not ask for more.
          have h0 : Text.nest d c = 0 := Option.some.inj hcs
          have hclose : isContinuation c = false := by rw [Text.eq_of_nest_eq_zero hd h0]; rfl
          simp [openBehind, h0, hclose]
      · obtain rfl : d = 0 := Nat.eq_zero_of_not_pos hd
        by_cases hopen : c = '{'
        · subst hopen
          refine (ih hcs hw).trans ?_
          cases cs with
          | cons x cs => rw [openBehind_cons, openBehind_cons]; rfl
          | nil => cases hcs
        · have hclose : c ≠ '}' := fun h => hbrace ⟨h, rfl⟩
          rw [Text.nest_of_ne hopen hclose] at hcs
          rw [outside, if_pos ⟨rfl, hopen, hclose⟩, Text.nest_of_ne hopen hclose] at hw
          rw [step_word (hw c List.mem_cons_self)]
          exact ih hcs fun x hx => hw x (List.mem_cons_of_mem _ hx)

end Scan

namespace Keeps

variable {line line' cs cs' : List Char}

/-- A compact text keeps itself. -/
theorem of_compact (h : Compact cs) : Keeps cs cs := fun _ _ _ start =>
  ⟨locate start cs, Statement.map_fst_locate start cs, Scan.run_compact h.balanced h.words⟩

theorem append (h : Keeps line cs) (h' : Keeps line' cs') :
    Keeps (line ++ line') (cs ++ cs') := by
  intro complete s isOpen start
  obtain ⟨chars, rfl, hrun⟩ := h complete s isOpen start
  obtain ⟨chars', rfl, hrun'⟩ := h' complete ⟨s.chars ++ chars⟩
    (Scan.openBehind isOpen (chars.map Prod.fst)) (start + Text.byteSize line)
  refine ⟨chars ++ chars', List.map_append, ?_⟩
  rw [Statement.locate_append, Scan.run_append, hrun, Option.bind_some, hrun',
    Scan.openBehind_append, List.append_assoc]

/-- What separates words is layout. -/
theorem gap (h : ∀ c ∈ line, Token.isGap c = true) : Keeps line [] := by
  induction line with
  | nil => exact fun _ s _ _ => ⟨[], rfl, by simp [locate, Scan.openBehind]⟩
  | cons c line ih =>
    have hc : c = ' ' ∨ c = '\t' ∨ c = '\r' := by
      simpa [Token.isGap, or_assoc] using h c List.mem_cons_self
    have hfirst : Keeps [c] [] := fun _ s _ _ =>
      ⟨[], rfl, by rcases hc with rfl | rfl | rfl <;> simp [locate, Scan.run_cons, Scan.step,
        Scan.openBehind]⟩
    exact hfirst.append (ih fun x hx => h x (List.mem_cons_of_mem _ hx))

/-- A space is layout. -/
theorem space : Keeps [' '] [] :=
  gap (List.all_eq_true.1 (by decide))

end Keeps

/-! ## Joined lines -/

/-- The statements that lines make: a text that ends open is continued by the next one. What is
    already there of the first statement is `cs`. -/
def joinOpen (cs : List Char) : List (List Char) → List (List Char)
  | [] => if cs.isEmpty then [] else [cs]
  | text :: texts =>
    if endsOpen (cs ++ text) then joinOpen (cs ++ text) texts
    else (cs ++ text) :: joinOpen [] texts

/-- Lines that are ended by line breaks. -/
def breakLines (lines : List (List Char)) : List Char :=
  lines.flatMap fun line => line ++ ['\n']

/-- From any statement in progress, a scan of lines finds the statements that they make. -/
theorem Scan.run_lines {lines : List (List Char × List Char)}
    (h : ∀ l ∈ lines, Keeps l.1 l.2 ∧ l.2 ≠ []) (complete : List Statement) (s : Statement)
    (start : Nat) :
    ∃ statements, statements.map Statement.text = joinOpen s.text (lines.map Prod.snd) ∧
      (run { complete, current := s, isOpen := endsOpen s.text }
        (locate start (breakLines (lines.map Prod.fst)))).bind finish =
          some (complete ++ statements) := by
  induction lines generalizing complete s start with
  | nil =>
    refine ⟨s.finished, ?_, rfl⟩
    rw [Statement.finished, List.map_nil, joinOpen, Statement.text, List.isEmpty_map]
    split <;> rfl
  | cons l lines ih =>
    obtain ⟨hkeeps, hne⟩ := h l List.mem_cons_self
    obtain ⟨chars, hchars, hrun⟩ := hkeeps complete s (endsOpen s.text) start
    have htext : Statement.text ⟨s.chars ++ chars⟩ = s.text ++ l.2 := by
      rw [← hchars]
      exact List.map_append
    have hopen : openBehind (endsOpen s.text) l.2 = endsOpen (s.text ++ l.2) := by
      rw [openBehind_of_ne_nil _ hne, endsOpen_append _ hne]
    -- The line break behind the line is all that is left to look at: it joins or it flushes.
    have ih := ih fun l hl => h l (List.mem_cons_of_mem _ hl)
    rw [List.map_cons, List.map_cons, joinOpen, breakLines, List.flatMap_cons, List.append_assoc,
      Statement.locate_append, run_append, hrun, Option.bind_some, hopen, List.singleton_append,
      locate, run_cons]
    split
    case isTrue hjoin =>
      -- The line goes on behind the line break.
      obtain ⟨statements, hs, hfinish⟩ := ih complete ⟨s.chars ++ chars⟩
        (start + Text.byteSize l.1 + '\n'.utf8Size)
      rw [htext] at hs hfinish
      refine ⟨statements, hs, ?_⟩
      rw [hjoin] at hfinish ⊢
      exact hfinish
    case isFalse hjoin =>
      -- The line is complete, and the next one starts with nothing in progress.
      have hjoin := Bool.of_not_eq_true hjoin
      obtain ⟨statements, hs, hfinish⟩ := ih (complete ++ [⟨s.chars ++ chars⟩]) {}
        (start + Text.byteSize l.1 + '\n'.utf8Size)
      refine ⟨⟨s.chars ++ chars⟩ :: statements, ?_, ?_⟩
      · rw [List.map_cons, htext, hs]
        rfl
      · have hfinished : Statement.finished ⟨s.chars ++ chars⟩ = [⟨s.chars ++ chars⟩] := by
          rw [Statement.finished, if_neg]
          intro hnil
          rw [Statement.text, List.isEmpty_iff.1 hnil] at htext
          exact hne (List.append_eq_nil_iff.1 htext.symm).2
        rw [hjoin]
        refine Eq.trans ?_ (hfinish.trans (by rw [List.append_assoc]; rfl))
        rw [← hfinished]
        rfl

/-- Lines are read as the texts that they keep, joined where they end open. -/
theorem ofSource_lines {lines : List (List Char × List Char)}
    (h : ∀ l ∈ lines, Keeps l.1 l.2 ∧ l.2 ≠ []) (start : Nat) :
    ∃ statements, Statement.ofSource start (breakLines (lines.map Prod.fst)) = .ok statements ∧
      statements.map Statement.text = joinOpen [] (lines.map Prod.snd) := by
  obtain ⟨statements, hs, hrun⟩ := Scan.run_lines h [] {} start
  have hscan := Scan.toOption_ofSource start (breakLines (lines.map Prod.fst))
  rw [show Scan.ofText start _ = some statements from hrun] at hscan
  refine ⟨statements, ?_, hs⟩
  cases hok : Statement.ofSource start (breakLines (lines.map Prod.fst)) with
  | error => rw [hok] at hscan; cases hscan
  | ok found =>
    rw [hok] at hscan
    cases hscan
    rfl

/-! ## Which lines are joined -/

section

variable {cs : List Char} {texts : List (List Char)}

/-- Nothing is joined if no line but the last one ends open. -/
theorem joinOpen_eq_self (hne : ∀ text ∈ texts, text ≠ [])
    (h : ∀ text ∈ texts.dropLast, endsOpen text = false) : joinOpen [] texts = texts := by
  induction texts with
  | nil => rfl
  | cons text texts ih =>
    rw [joinOpen, List.nil_append]
    cases texts with
    | nil =>
      have hempty : text.isEmpty = false := by
        simpa using hne text List.mem_cons_self
      split
      · rw [joinOpen, hempty]
        rfl
      · rfl
    | cons next texts =>
      rw [if_neg (Bool.not_eq_true _ ▸ h text List.mem_cons_self)]
      rw [ih (fun t ht => hne t (List.mem_cons_of_mem _ ht))
        fun t ht => h t (List.mem_cons_of_mem _ ht)]

/-- There are at most as many statements as lines. -/
theorem length_joinOpen_le (cs : List Char) (h : texts ≠ []) :
    (joinOpen cs texts).length ≤ texts.length := by
  induction texts generalizing cs with
  | nil => exact absurd rfl h
  | cons text texts ih =>
    rw [joinOpen, List.length_cons]
    cases texts with
    | nil =>
      split
      · rw [joinOpen]
        split
        · exact Nat.zero_le _
        · exact Nat.le_refl _
      · exact Nat.le_refl _
    | cons next texts =>
      have hle (cs : List Char) := ih cs (List.cons_ne_nil next texts)
      split
      · exact Nat.le_succ_of_le (hle _)
      · exact Nat.succ_le_succ (hle _)

/-- There are fewer statements than lines if a line other than the last one ends open. -/
theorem length_joinOpen_lt (cs : List Char) (hne : ∀ text ∈ texts, text ≠ [])
    (h : ∃ text ∈ texts.dropLast, endsOpen text = true) :
    (joinOpen cs texts).length < texts.length := by
  induction texts generalizing cs with
  | nil =>
    obtain ⟨text, ht, -⟩ := h
    cases ht
  | cons first texts ih =>
    obtain ⟨text, ht, hopen⟩ := h
    cases texts with
    | nil => cases ht
    | cons next texts =>
      rw [joinOpen, List.length_cons, endsOpen_append cs (hne first List.mem_cons_self)]
      split
      case isTrue => exact Nat.lt_succ_of_le (length_joinOpen_le _ (List.cons_ne_nil _ _))
      case isFalse hclosed =>
        rcases List.mem_cons.1 ht with rfl | ht
        · exact absurd hopen hclosed
        · exact Nat.succ_lt_succ
            (ih [] (fun t ht => hne t (List.mem_cons_of_mem _ ht)) ⟨text, ht, hopen⟩)

/-- Every statement is what is there of the first one, or nothing, and some of the lines behind
    it. -/
theorem exists_flatten_of_mem_joinOpen {text : List Char} (h : text ∈ joinOpen cs texts) :
    ∃ parts : List (List Char), (∀ part ∈ parts, part ∈ texts) ∧
      (text = cs ++ parts.flatten ∨ text = parts.flatten) := by
  induction texts generalizing cs with
  | nil =>
    rw [joinOpen] at h
    split at h
    · cases h
    · obtain rfl := List.mem_singleton.1 h
      exact ⟨[], fun _ h => (by cases h), .inl (by simp)⟩
  | cons first texts ih =>
    have mem {part : List Char} {parts : List (List Char)} (hp : ∀ part ∈ parts, part ∈ texts)
        (h : part ∈ parts) : part ∈ first :: texts := List.mem_cons_of_mem _ (hp part h)
    rw [joinOpen] at h
    split at h
    case isTrue =>
      obtain ⟨parts, hparts, rfl | rfl⟩ := ih h
      · refine ⟨first :: parts, fun part hp => ?_, .inl (by simp)⟩
        rcases List.mem_cons.1 hp with rfl | hp
        · exact List.mem_cons_self
        · exact mem hparts hp
      · exact ⟨parts, fun _ hp => mem hparts hp, .inr rfl⟩
    case isFalse =>
      rcases List.mem_cons.1 h with rfl | h
      · exact ⟨[first], fun part hp => List.mem_singleton.1 hp ▸ List.mem_cons_self,
          .inl (by simp)⟩
      · obtain ⟨parts, hparts, rfl | rfl⟩ := ih h
        all_goals exact ⟨parts, fun _ hp => mem hparts hp, .inr (by simp)⟩

end

end StructuralModel
