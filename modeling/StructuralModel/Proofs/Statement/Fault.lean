import StructuralModel.Proofs.Statement.Context

/-!
# The first fault of a text

A scan of a text from left to right meets faults of three kinds (`Scan.firstFault?`): outside of
braces and comments, a semicolon behind an open statement, or a `}`; and the end of the text, if a
brace is open there. A text is refused iff a scan of it meets a fault.

The fault that is reported need not be the first one. Tokens come before statements, so a brace that
is never closed is reported whatever stands in front of it; any other fault is reported only if it
is the first one.

* `firstFault?_ofText`: what the tokens of a text and the layout find, the scan finds too;
* `reports_firstFault_iff`: when the fault that is reported is the first one;
* `isUnbalanced_iff`: when it is a fault of braces.
-/

namespace StructuralModel

open Statement (locate isContinuation ofTokens ofSource)

/-- The fault that stands in place of a result. -/
def faultOf? {α : Type} : Except Finding α → Option Finding
  | .ok _ => none
  | .error f => some f

theorem faultOf?_map {α β : Type} (g : α → β) (x : Except Finding α) :
    faultOf? (x.map g) = faultOf? x := by
  cases x <;> rfl

theorem faultOf?_eq_some_iff {α : Type} {x : Except Finding α} {f : Finding} :
    faultOf? x = some f ↔ x = .error f := by
  cases x <;> simp [faultOf?]

namespace Scan

/-- The fault that a character is. -/
def faultAt? (s : Scan) (p : Char × Nat) : Option Finding :=
  if 0 < s.depth ∨ s.inComment = true then none
  else
    let place : Span := .ofBounds p.2 (p.2 + 1)
    match p.1 with
    | ';' => if s.isOpen then some (.danglingOperator place (s.current.span.union place)) else none
    | '}' => some (.unmatchedBrace place)
    | _ => none

/-- The first fault that a scan meets in a text, if the outermost open brace is at `brace`. -/
def firstFault? (s : Scan) (brace : Nat) : List (Char × Nat) → Option Finding
  | [] => if 0 < s.depth then some (.unclosedBrace (.ofBounds brace (brace + 1))) else none
  | p :: chars =>
    match s.faultAt? p with
    | some f => some f
    | none =>
      -- A brace that is opened next is the outermost one, if no brace is open.
      (s.step p).bind fun t => t.firstFault? (if 0 < s.depth then brace else p.2) chars

/-! ## Faults of a scan -/

variable {s t : Scan} {p : Char × Nat} {chars : List (Char × Nat)} {f : Finding}

/-- At depth zero and outside of comments, a semicolon behind an open statement and a `}` are
    faults. -/
theorem faultAt?_eq_some_iff : s.faultAt? p = some f ↔ s.depth = 0 ∧ s.inComment = false ∧
    (p.1 = ';' ∧ s.isOpen = true ∧ f = .danglingOperator (.ofBounds p.2 (p.2 + 1))
        (s.current.span.union (.ofBounds p.2 (p.2 + 1))) ∨
      p.1 = '}' ∧ f = .unmatchedBrace (.ofBounds p.2 (p.2 + 1))) := by
  rw [faultAt?]
  split
  case isTrue h =>
    refine ⟨fun h => (by cases h), fun ⟨hd, hc, _⟩ => ?_⟩
    rcases h with h | h
    · exact absurd hd (Nat.ne_of_gt h)
    · rw [hc] at h
      cases h
  case isFalse h =>
    rw [not_or, Nat.not_lt, Nat.le_zero, Bool.not_eq_true] at h
    rw [and_iff_right h.1, and_iff_right h.2]
    split
    case h_1 hp =>
      rw [hp, Option.ite_none_right_eq_some, Option.some.injEq, eq_comm (b := f)]
      simp
    case h_2 hp =>
      rw [hp, Option.some.injEq, eq_comm (b := f)]
      simp
    case h_3 h₁ h₂ =>
      refine ⟨fun h => (by cases h), ?_⟩
      rintro (⟨hp, -⟩ | ⟨hp, -⟩)
      · exact absurd hp h₁
      · exact absurd hp h₂

/-- A scan stops at a character iff it is a fault. -/
theorem step_eq_none_iff : s.step p = none ↔ ∃ f, s.faultAt? p = some f := by
  simp only [faultAt?_eq_some_iff]
  rw [step]
  split
  case isTrue hd => simp [Nat.ne_of_gt hd]
  case isFalse hd =>
    have hd : s.depth = 0 := Nat.eq_zero_of_not_pos hd
    split
    case isTrue hc => simp [hc]
    case isFalse hc =>
      have hc : s.inComment = false := Bool.of_not_eq_true hc
      split
      case h_6 hp => cases hopen : s.isOpen <;> simp [hd, hc, hp]
      case h_8 hp => simp [hd, hc, hp]
      case h_9 h₆ _ h₈ =>
        refine iff_of_false (fun h => by cases h) ?_
        rintro ⟨f, -, -, ⟨hp, -⟩ | ⟨hp, -⟩⟩
        · exact h₆ hp
        · exact h₈ hp
      all_goals
        rename_i hp
        simp [hp]

theorem faultAt?_of_step (h : s.step p = some t) : s.faultAt? p = none := by
  rw [Option.eq_none_iff_forall_ne_some]
  intro f hf
  rw [step_eq_none_iff.2 ⟨f, hf⟩] at h
  cases h

/-- A scan that does not get through a text stops at the first fault. -/
theorem exists_faultAt?_of_run (brace : Nat) (h : s.run chars = none) :
    ∃ before p after t f, chars = before ++ p :: after ∧ s.run before = some t ∧
      t.faultAt? p = some f ∧ s.firstFault? brace chars = some f := by
  induction chars generalizing s brace with
  | nil => cases h
  | cons p chars ih =>
    rw [run_cons] at h
    cases hstep : s.step p with
    | none =>
      obtain ⟨f, hf⟩ := step_eq_none_iff.1 hstep
      exact ⟨[], p, chars, s, f, rfl, rfl, hf, by rw [firstFault?, hf]⟩
    | some u =>
      rw [hstep, Option.bind_some] at h
      obtain ⟨before, q, after, t, f, rfl, ht, hf, hfirst⟩ :=
        ih (if 0 < s.depth then brace else p.2) h
      refine ⟨p :: before, q, after, t, f, rfl, ?_, hf, ?_⟩
      · rw [run_cons, hstep]
        exact ht
      · rw [firstFault?, faultAt?_of_step hstep, hstep]
        exact hfirst

/-- Behind a text that is scanned to depth zero the scan goes on. -/
theorem firstFault?_append (brace : Nat) {more : List (Char × Nat)} (h : s.run chars = some t)
    (ht : t.depth = 0) : s.firstFault? brace (chars ++ more) = t.firstFault? 0 more := by
  induction chars generalizing s brace with
  | nil =>
    cases h
    cases more with
    | nil => rw [List.nil_append, firstFault?, firstFault?, ht]; rfl
    | cons p more => rw [List.nil_append, firstFault?, firstFault?, ht]; rfl
  | cons p chars ih =>
    obtain ⟨u, hu, ht⟩ := Option.bind_eq_some_iff.1 h
    rw [List.cons_append, firstFault?, faultAt?_of_step hu, hu]
    exact ih _ ht

/-- A scan that gets through a text to depth zero meets no fault. -/
theorem firstFault?_of_run (brace : Nat) (h : s.run chars = some t) (ht : t.depth = 0) :
    s.firstFault? brace chars = none := by
  rw [← List.append_nil chars, firstFault?_append brace h ht, firstFault?, ht]
  rfl

/-- A brace that is never closed is a fault at the end of the text. -/
theorem firstFault?_of_closing {start brace : Nat} {cs : List Char} (hd : 0 < s.depth)
    (h : Text.closing s.depth cs = none) : s.firstFault? brace (locate start cs) =
      some (.unclosedBrace (.ofBounds brace (brace + 1))) := by
  induction cs generalizing s start with
  | nil => exact if_pos hd
  | cons c rest ih =>
    rw [Text.closing] at h
    split at h
    case isTrue => cases h
    case isFalse h0 =>
      rw [locate, firstFault?, faultAt?, if_pos (.inl hd), step, if_pos hd, if_pos hd]
      exact ih (Nat.pos_of_ne_zero h0) (Option.map_eq_none_iff.1 h)

/-! ## Faults of a text -/

variable {complete : List Statement} {current : Statement} {isOpen : Bool} {start : Nat}
  {cs : List Char}

/-- A comment is over at the end of its line. -/
theorem firstFault?_inComment (brace : Nat) (h : ∀ c ∈ cs.head?, c = '\n') :
    firstFault? { complete, current, inComment := true, isOpen } brace (locate start cs) =
      firstFault? { complete, current, isOpen } brace (locate start cs) := by
  cases cs with
  | nil => rfl
  | cons c cs =>
    obtain rfl : c = '\n' := h c rfl
    rfl

/-- Once a text has tokens, the layout and the scan find the same fault. -/
theorem firstFault?_ofText {tokens : List Token} (complete : List Statement) (current : Statement)
    (isOpen : Bool) (brace : Nat) (h : Token.ofText start cs = .ok tokens) :
    firstFault? { complete, current, isOpen } brace (locate start cs) =
      faultOf? (ofTokens current isOpen tokens) := by
  -- By induction along the tokens, from any statement in progress.
  fun_induction Token.ofText start cs generalizing complete current isOpen brace tokens with
  | case1 =>
    cases h
    rfl
  | case2 => cases h
  | case3 start c rest kind text after hfirst ih =>
    obtain ⟨htext, hlexeme⟩ := Token.lexeme_of_first? hfirst
    cases hrest : Token.ofText (start + Text.byteSize text) after with
    | error => rw [hrest] at h; cases h
    | ok tokens' =>
      rw [hrest] at h
      cases h
      rw [htext, Statement.locate_append]
      have ih (complete : List Statement) (current : Statement) (isOpen : Bool) :=
        ih complete current isOpen 0 hrest
      cases hlexeme with
      | blank hgap =>
        rw [firstFault?_append brace (run_blank hgap) rfl]
        exact ih complete current isOpen
      | comment hbody hafter =>
        rw [firstFault?_append brace (run_hash hbody) rfl, firstFault?_inComment 0 hafter]
        exact ih complete current isOpen
      | newline =>
        cases isOpen with
        | true => exact (firstFault?_append brace rfl rfl).trans (ih complete current true)
        | false =>
          refine (firstFault?_append brace rfl rfl).trans ((ih _ {} false).trans ?_)
          exact (faultOf?_map ..).symm
      | semicolon =>
        cases isOpen with
        | true => rfl
        | false =>
          refine (firstFault?_append brace rfl rfl).trans ((ih _ {} false).trans ?_)
          exact (faultOf?_map ..).symm
      | strayBrace => rfl
      | @block block _ hblock =>
        rw [firstFault?_append brace (run_block hblock) rfl]
        exact ih complete ⟨current.chars ++ locate start ('{' :: block)⟩ false
      | word hne hword =>
        rw [firstFault?_append brace (run_word hword) rfl, openBehind_eq_any isOpen hne]
        exact ih complete ⟨current.chars ++ locate start text⟩ _

/-- A scan that gets to a place stands in what the place stands in. -/
theorem context_of_run_locate {t : Scan} (h : run {} (locate start cs) = some t) :
    t.context = .behind cs := by
  rw [context_of_run h, Statement.map_fst_locate]
  rfl

/-- A scan that gets to a place behind some text gets through the text. -/
theorem exists_run_of_run_append {more : List (Char × Nat)} (h : s.run (chars ++ more) = some t) :
    ∃ u, s.run chars = some u ∧ u.run more = some t := by
  rwa [run_append, Option.bind_eq_some_iff] at h

/-- A scan that gets to the end of a text meets the outermost brace that is never closed. -/
theorem firstFault?_of_unclosed {before after : List Char}
    (hrun : (run {} (locate start (before ++ '{' :: after))).isSome = true)
    (htop : (Context.behind before).IsTop) (h : Text.closing 1 after = none) :
    firstFault? {} 0 (locate start (before ++ '{' :: after)) =
      some (.unclosedBrace (.ofBounds (start + Text.byteSize before)
        (start + Text.byteSize before + 1))) := by
  obtain ⟨t, ht⟩ := Option.isSome_iff_exists.1 hrun
  rw [Statement.locate_append] at ht ⊢
  obtain ⟨u, hu, -⟩ := exists_run_of_run_append ht
  rw [← context_of_run_locate hu] at htop
  obtain ⟨hd, hc⟩ : u.depth = 0 ∧ u.inComment = false := htop
  rw [firstFault?_append 0 hu hd, locate, firstFault?, faultAt?, step]
  simp only [hd, hc, Nat.lt_irrefl, Bool.false_eq_true, or_self, if_false]
  exact firstFault?_of_closing (s := { u.keep _ with depth := 1 }) Nat.one_pos h

/-! ## The fault that is reported -/

/-- If no brace is open behind a text, the fault that is reported is the first one. -/
theorem firstFault?_ofSource (h : (Context.behind cs).depth = 0) :
    firstFault? {} 0 (locate start cs) = faultOf? (ofSource start cs) := by
  have hbraces := Token.braces_ofText start cs
  rw [ofSource]
  cases htokens : Token.ofText start cs with
  | ok tokens => exact firstFault?_ofText [] {} false 0 htokens
  | error f =>
    rw [htokens] at hbraces
    obtain ⟨before, after, rfl, hunclosed, -⟩ := hbraces
    exact absurd h (hunclosed.depth_ne_zero after [] (List.append_nil after).symm)

/-- If a brace is open behind a text, the outermost one that is never closed is reported. -/
theorem ofSource_of_depth_ne_zero (start : Nat) (h : (Context.behind cs).depth ≠ 0) :
    ∃ before after, cs = before ++ '{' :: after ∧ (Context.behind before).IsTop ∧
      Text.closing 1 after = none ∧
      ofSource start cs = .error (.unclosedBrace (.ofBounds (start + Text.byteSize before)
        (start + Text.byteSize before + 1))) := by
  have hbraces := Token.bracesOf_ofText (k := {}) ⟨rfl, rfl⟩ start cs
  rw [ofSource]
  cases htokens : Token.ofText start cs with
  | ok tokens =>
    rw [htokens] at hbraces
    exact absurd hbraces h
  | error f =>
    rw [htokens] at hbraces
    obtain ⟨before, after, hcs, htop, hclosing, rfl⟩ := hbraces
    exact ⟨before, after, hcs, htop, hclosing, rfl⟩

theorem ne_unclosedBrace_of_faultAt? (h : s.faultAt? p = some f) (place : Span) :
    f ≠ .unclosedBrace place := by
  obtain ⟨-, -, ⟨-, -, rfl⟩ | ⟨-, rfl⟩⟩ := faultAt?_eq_some_iff.1 h <;> exact Finding.noConfusion

/-- A text is refused iff a scan of it meets a fault. The fault that is reported is the first one
    iff no brace is open behind the text, or the scan gets through the text; otherwise it is the
    outermost brace that is never closed, which stands behind the first fault. -/
theorem reports_firstFault_iff (start : Nat) (cs : List Char) :
    match ofSource start cs with
    | .ok _ => firstFault? {} 0 (locate start cs) = none
    | .error f => ∃ first, firstFault? {} 0 (locate start cs) = some first ∧
        (f = first ↔
          (Context.behind cs).depth = 0 ∨ (run {} (locate start cs)).isSome = true) ∧
        ((Context.behind cs).depth ≠ 0 → ∃ before after, cs = before ++ '{' :: after ∧
          Context.Unclosed before after ∧ f = .unclosedBrace (.ofBounds
            (start + Text.byteSize before) (start + Text.byteSize before + 1))) := by
  by_cases h0 : (Context.behind cs).depth = 0
  case pos =>
    have hfirst : firstFault? {} 0 (locate start cs) = faultOf? (ofSource start cs) :=
      firstFault?_ofSource h0
    cases hsource : ofSource start cs with
    | ok statements => rwa [hsource] at hfirst
    | error f =>
      rw [hsource] at hfirst
      exact ⟨f, hfirst, iff_of_true rfl (.inl h0), fun h => absurd h0 h⟩
  case neg =>
    obtain ⟨before, after, rfl, htop, hclosing, hsource⟩ := ofSource_of_depth_ne_zero start h0
    rw [hsource]
    have hunclosed := Context.Unclosed.of_closing htop hclosing
    cases hrun : run {} (locate start (before ++ '{' :: after)) with
    | none =>
      obtain ⟨_, p, _, t, first, -, -, hfault, hfirst⟩ := exists_faultAt?_of_run 0 hrun
      refine ⟨first, hfirst, iff_of_false ?_ ?_, fun _ => ⟨before, after, rfl, hunclosed, rfl⟩⟩
      · exact (ne_unclosedBrace_of_faultAt? hfault _).symm
      · simp [h0]
    | some t =>
      have hfirst := firstFault?_of_unclosed (Option.isSome_iff_exists.2 ⟨t, hrun⟩) htop hclosing
      exact ⟨_, hfirst, iff_of_true rfl (.inr rfl), fun _ => ⟨before, after, rfl, hunclosed, rfl⟩⟩

/-- In front of a brace that is never closed a `}` may be the first fault. -/
theorem not_reports_firstFault : ¬∀ (source : String) (f : Finding),
    ofSource 0 source.toList = .error f →
      firstFault? {} 0 (locate 0 source.toList) = some f := by
  intro h
  have hsource : faultOf? (ofSource 0 "\x7d\x7b".toList) =
      some (.unclosedBrace (.ofBounds 1 2)) := by decide +kernel
  have hfirst := h _ _ (faultOf?_eq_some_iff.1 hsource)
  revert hfirst
  decide

end Scan

/-! ## Balance of braces -/

namespace Context

/-- Outside of braces and comments, a `}` and a semicolon behind an open statement are faults. -/
def IsFault (k : Context) (c : Char) : Prop :=
  k.IsTop ∧ (c = '}' ∨ c = ';' ∧ k.isOpen = true)

/-- The first fault in a text is the character `c` behind `before`. -/
structure Stops (before : List Char) (c : Char) : Prop where
  isFault : (behind before).IsFault c
  passes : ∀ front d back, before = front ++ d :: back → ¬(behind front).IsFault d

/-- A `}` behind `before` is not in braces or in a comment, and no semicolon in front of it ends an
    open statement. -/
structure Stray (before : List Char) : Prop where
  isTop : (behind before).IsTop
  not_dangling : ∀ front back, before = front ++ ';' :: back → ¬(behind front).IsFault ';'

/-- If the first fault in a text is a character, some `}` is stray iff the character is. -/
theorem Stops.exists_stray_iff {before after : List Char} {c : Char} (h : Stops before c) :
    (∃ front back, before ++ c :: after = front ++ '}' :: back ∧ Stray front) ↔ c = '}' := by
  constructor
  · rintro ⟨front, back, heq, hstray⟩
    -- A stray brace in front of the first fault would be an earlier one, and the first fault in
    -- front of a stray brace is no semicolon.
    obtain ⟨mid, hfront, hmid⟩ | ⟨mid, hbefore, hmid⟩ := List.append_eq_append_iff.1 heq
    · cases mid with
      | nil => exact (List.cons.inj hmid).1
      | cons d mid =>
        obtain ⟨rfl, -⟩ := List.cons.inj hmid
        refine h.isFault.2.resolve_right fun ⟨hc, hopen⟩ => ?_
        exact hstray.not_dangling before mid (hc ▸ hfront) ⟨h.isFault.1, .inr ⟨rfl, hopen⟩⟩
    · cases mid with
      | nil => exact (List.cons.inj hmid).1.symm
      | cons d mid =>
        obtain ⟨rfl, -⟩ := List.cons.inj hmid
        exact absurd ⟨hstray.isTop, .inl rfl⟩ (h.passes front _ mid hbefore)
  · rintro rfl
    exact ⟨before, after, rfl, h.isFault.1, fun front back => h.passes front ';' back⟩

end Context

namespace Scan

variable {s t : Scan} {p : Char × Nat} {chars : List (Char × Nat)} {f : Finding} {start : Nat}
  {cs : List Char}

/-- A scan stops at the characters that are faults in its context. -/
theorem isFault_context_iff : s.context.IsFault p.1 ↔ ∃ f, s.faultAt? p = some f := by
  simp only [faultAt?_eq_some_iff]
  constructor
  · rintro ⟨⟨hd, hc⟩, hp | ⟨hp, hopen⟩⟩
    · exact ⟨_, hd, hc, .inr ⟨hp, rfl⟩⟩
    · exact ⟨_, hd, hc, .inl ⟨hp, (Bool.and_eq_true_iff.1 hopen).1, rfl⟩⟩
  · rintro ⟨f, hd, hc, ⟨hp, hopen, -⟩ | ⟨hp, -⟩⟩
    · exact ⟨⟨hd, hc⟩, .inr ⟨hp, Bool.and_eq_true_iff.2 ⟨hopen, beq_iff_eq.2 hd⟩⟩⟩
    · exact ⟨⟨hd, hc⟩, .inl hp⟩

/-- What a scan has got past is no fault. -/
theorem not_isFault_of_run {before after : List Char} {c : Char} (h : run {} chars = some t)
    (hchars : chars.map Prod.fst = before ++ c :: after) : ¬(Context.behind before).IsFault c := by
  obtain ⟨chars, more, rfl, rfl, hmore⟩ := List.map_eq_append_iff.1 hchars
  obtain ⟨p, more, rfl, rfl, -⟩ := List.map_eq_cons_iff.1 hmore
  obtain ⟨u, hu, ht⟩ := exists_run_of_run_append h
  obtain ⟨v, hv, -⟩ := Option.bind_eq_some_iff.1 ht
  have hbehind : Context.behind (chars.map Prod.fst) = u.context := (context_of_run hu).symm
  rw [hbehind, isFault_context_iff, ← step_eq_none_iff, hv]
  exact Option.some_ne_none v

/-- A scan that does not get through a text stops at a character, whose fault is the first one. -/
theorem exists_stops_of_run (h : run {} (locate start cs) = none) : ∃ before c after f,
    cs = before ++ c :: after ∧ Context.Stops before c ∧
      firstFault? {} 0 (locate start cs) = some f ∧
      (f.diagnostic.code = some .unbalancedBraces ↔ c = '}') := by
  obtain ⟨chars, p, more, t, f, hchars, ht, hfault, hfirst⟩ := exists_faultAt?_of_run 0 h
  have hcs := Statement.map_fst_locate start cs
  rw [hchars, List.map_append, List.map_cons] at hcs
  have hbehind : Context.behind (chars.map Prod.fst) = t.context := (context_of_run ht).symm
  refine ⟨chars.map Prod.fst, p.1, more.map Prod.fst, f, hcs.symm, ⟨?_, ?_⟩, hfirst, ?_⟩
  · rw [hbehind]
    exact isFault_context_iff.2 ⟨f, hfault⟩
  · exact fun front d back hfront => not_isFault_of_run ht hfront
  · obtain ⟨-, -, ⟨hp, -, rfl⟩ | ⟨hp, rfl⟩⟩ := faultAt?_eq_some_iff.1 hfault
    · rw [hp]
      exact iff_of_false (fun h => by cases h) (by decide)
    · exact iff_of_true rfl hp

/-- A text is refused for its braces iff one is never closed, or a `}` closes nothing and no
    semicolon in front of it ends an open statement. -/
theorem isUnbalanced_iff (start : Nat) (cs : List Char) :
    (∃ f, ofSource start cs = .error f ∧ f.diagnostic.code = some .unbalancedBraces) ↔
      (Context.behind cs).depth ≠ 0 ∨
        ∃ before after, cs = before ++ '}' :: after ∧ Context.Stray before := by
  by_cases h0 : (Context.behind cs).depth = 0
  case neg =>
    obtain ⟨before, after, -, -, -, hsource⟩ := ofSource_of_depth_ne_zero start h0
    exact iff_of_true ⟨_, hsource, rfl⟩ (.inl h0)
  case pos =>
    simp only [← faultOf?_eq_some_iff, ← firstFault?_ofSource h0]
    rw [or_iff_right (not_not_intro h0)]
    cases hrun : run {} (locate start cs) with
    | some t =>
      have hd : t.context.depth = 0 := context_of_run_locate hrun ▸ h0
      rw [firstFault?_of_run 0 hrun hd]
      refine iff_of_false (fun ⟨f, hf, _⟩ => by cases hf) ?_
      rintro ⟨before, after, hcs, hstray⟩
      have hchars := (Statement.map_fst_locate start cs).trans hcs
      exact not_isFault_of_run hrun hchars ⟨hstray.isTop, .inl rfl⟩
    | none =>
      obtain ⟨before, c, after, f, rfl, hstops, hfirst, hcode⟩ := exists_stops_of_run hrun
      rw [hfirst, hstops.exists_stray_iff, ← hcode]
      exact ⟨fun ⟨g, hg, hcode⟩ => by cases hg; exact hcode, fun hcode => ⟨f, rfl, hcode⟩⟩

/-- A `}` that closes nothing is not reported behind a semicolon that ends an open statement. -/
theorem not_isUnbalanced_of_isTop : ¬∀ source : String,
    (∃ f, ofSource 0 source.toList = .error f ∧ f.diagnostic.code = some .unbalancedBraces) ↔
      (Context.behind source.toList).depth ≠ 0 ∨
        ∃ before after, source.toList = before ++ '}' :: after ∧ (Context.behind before).IsTop := by
  intro h
  obtain ⟨f, hf, hcode⟩ := (h "x~;\x7d").2 (.inr ⟨['x', '~', ';'], [], rfl, by decide⟩)
  have hsource : faultOf? (ofSource 0 "x~;\x7d".toList) =
      some (.danglingOperator (.ofBounds 2 3) (.ofBounds 0 3)) := by decide +kernel
  rw [faultOf?_eq_some_iff.1 hsource] at hf
  cases hf
  revert hcode
  decide

end Scan

end StructuralModel
