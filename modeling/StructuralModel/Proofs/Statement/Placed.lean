import StructuralModel.Model.Build
import StructuralModel.Proofs.Statement.Place

/-!
# Places of diagnostics

A diagnostic is *placed* in a source if all of its labels have spans within the source, and, if it
is an error, exactly one of them is primary and lies in all of the others (`Diagnostic.Placed`).

Every step that finds statements, or something wrong with them, keeps to this:

* `Statement.laid_ofTokens`, `Statement.laid_ofSource`: the statements of a source lie in it, and
  the fault of its layout is placed;
* `Statement.LiesIn.placed_of_invalid?`: what makes a statement invalid is placed;
* `Form.placed_readRelation` and its like: so is what is wrong with a form.
-/

namespace StructuralModel

open Text (byteSize StandsAt)

/-! ## Diagnostics -/

/-- The labels of a diagnostic are places of a source, and those of an error surround the one that
    it is about. -/
structure Diagnostic.Placed (source : String) (d : Diagnostic) : Prop where
  /-- All labels lie within the source. -/
  within : ∀ l ∈ d.labels, l.span.Within source
  /-- An error has one primary label, which lies in every secondary one. -/
  primary : d.isError = true → ∃ l, d.labels.filter Label.primary = [l] ∧
    ∀ l' ∈ d.labels, l'.primary = false → l'.span.Holds l.span

namespace Diagnostic.Placed

variable {source : String} {d : Diagnostic} {place around : Span} {message more : String}

/-- A diagnostic with one label. -/
theorem single (h : place.Within source) (hlabels : d.labels = [{ span := place, message }]) :
    d.Placed source := by
  constructor
  · rw [hlabels]
    exact List.forall_mem_singleton.2 h
  · rw [hlabels]
    exact fun _ => ⟨_, rfl, List.forall_mem_singleton.2 fun h => by cases h⟩

/-- A diagnostic about a place and what is around it. -/
theorem pair (h : place.Within source) (haround : around.Within source)
    (hholds : around.Holds place)
    (hlabels : d.labels =
      [{ span := place, message }, { span := around, message := more, primary := false }]) :
    d.Placed source := by
  constructor
  · rw [hlabels]
    exact List.forall_mem_cons.2 ⟨h, List.forall_mem_singleton.2 haround⟩
  · rw [hlabels]
    exact fun _ => ⟨_, rfl, List.forall_mem_cons.2
      ⟨fun h => (by cases h), List.forall_mem_singleton.2 fun _ => hholds⟩⟩

/-- A remark about a row. -/
theorem row {span : Option Span} (h : ∀ place ∈ span, place.Within source)
    (herror : d.isError = false) (hlabels : d.labels = Finding.rowLabel span message) :
    d.Placed source := by
  constructor
  · rw [hlabels]
    intro l hl
    obtain ⟨place, hplace, rfl⟩ := List.mem_map.1 hl
    exact h place (Option.mem_toList.1 hplace)
  · intro h
    rw [herror] at h
    cases h

end Diagnostic.Placed

/-! ## Tokens -/

namespace Token

/-- The characters of a token with their byte offsets. -/
def located (t : Token) : List (Char × Nat) :=
  Statement.locate t.start t.text

/-- The tokens of a text are stretches of it, and are all of it together; or else a brace in the
    text is at fault. -/
def Cover (start : Nat) (cs : List Char) : Except Finding (List Token) → Prop
  | .ok tokens => tokens.flatMap located = Statement.locate start cs ∧
      ∀ t ∈ tokens, StandsAt start cs t.text t.start
  | .error fault => ∃ i, StandsAt start cs ['{'] i ∧ fault = .unclosedBrace (.ofBounds i (i + 1))

theorem cover_ofText (start : Nat) (cs : List Char) : Cover start cs (ofText start cs) := by
  fun_induction ofText start cs with
  | case1 => exact ⟨rfl, fun _ h => by cases h⟩
  | case2 start c rest hnone =>
    obtain ⟨rfl, -⟩ := closing_of_first?_eq_none hnone
    exact ⟨start, Text.standsAt_append start ['{'] rest, rfl⟩
  | case3 start c rest kind text after hfirst ih =>
    rw [(lexeme_of_first? hfirst).1]
    cases hrest : ofText (start + byteSize text) after with
    | error fault =>
      rw [hrest] at ih
      obtain ⟨i, hbrace, hfault⟩ := ih
      exact ⟨i, hbrace.append_left text, hfault⟩
    | ok tokens =>
      rw [hrest] at ih
      obtain ⟨hlocated, hall⟩ := ih
      refine ⟨?_, List.forall_mem_cons.2 ⟨Text.standsAt_append start text after, fun t ht => ?_⟩⟩
      · rw [Statement.locate_append, ← hlocated]
        rfl
      · exact (hall t ht).append_left text

end Token

/-! ## Layout -/

namespace Statement

variable {source : String} {s : Statement} {isOpen : Bool} {tokens : List Token}

/-- Statements that were found in a source lie in it, or else the fault is placed in it. -/
def Laid (source : String) : Except Finding (List Statement) → Prop
  | .ok statements => ∀ s ∈ statements, s.LiesIn source
  | .error fault => fault.diagnostic.Placed source

theorem eq_of_mem_finished {s' : Statement} (h : s' ∈ s.finished) : s' = s := by
  rw [finished] at h
  split at h
  · cases h
  · exact List.mem_singleton.1 h

theorem Laid.map_append {found : Except Finding (List Statement)} (h : Laid source found)
    (hs : s.LiesIn source) : Laid source (found.map (s.finished ++ ·)) := by
  cases found with
  | error => exact h
  | ok statements =>
    intro s' hs'
    rcases List.mem_append.1 hs' with hs' | hs'
    · rwa [eq_of_mem_finished hs']
    · exact h s' hs'

theorem LiesIn.within_span (hs : s.LiesIn source) : s.span.Within source := by
  have := hs.within_spanOfPiece (Piece.liesIn_whole s)
  rwa [spanOfPiece, whole, Nat.zero_add] at this

/-- The statement in progress and the tokens that follow it stand in the source in this order; they
    make statements that lie there. -/
theorem laid_ofTokens (hspan : ∀ t ∈ tokens, t.span.Within source)
    (h : (s.chars ++ tokens.flatMap Token.located).Sublist (locate 0 source.toList)) :
    Laid source (ofTokens s isOpen tokens) := by
  -- By induction along the tokens: what is dropped leaves the rest in its order.
  induction tokens generalizing s isOpen with
  | nil =>
    have hs : s.LiesIn source := by simpa [LiesIn] using h
    intro s' hs'
    rwa [eq_of_mem_finished hs']
  | cons t tokens ih =>
    have hrest := fun t ht => hspan t (List.mem_cons_of_mem _ ht)
    have ht := hspan t List.mem_cons_self
    rw [List.flatMap_cons] at h
    have hs : s.LiesIn source := (List.sublist_append_left _ _).trans h
    have hdrop : (s.chars ++ tokens.flatMap Token.located).Sublist (locate 0 source.toList) :=
      ((List.Sublist.refl _).append (List.sublist_append_right _ _)).trans h
    have hnew : (({} : Statement).chars ++ tokens.flatMap Token.located).Sublist
        (locate 0 source.toList) := (List.sublist_append_right _ _).trans hdrop
    have hkeep : ((s.extend t).chars ++ tokens.flatMap Token.located).Sublist
        (locate 0 source.toList) := by
      rw [extend, List.append_assoc]
      exact h
    rw [ofTokens]
    split
    case h_1 | h_2 => exact ih hrest hdrop
    case h_3 =>
      split
      · exact ih hrest hdrop
      · exact (ih hrest hnew).map_append hs
    case h_4 =>
      split
      · exact .pair ht (hs.within_span.union ht) (Span.union_holds_right _ _) rfl
      · exact (ih hrest hnew).map_append hs
    case h_5 => exact .single ht rfl
    case h_6 | h_7 => exact ih hrest hkeep

/-- The statements of what stands behind a part of a source lie in the source. -/
theorem laid_ofSource {front cs : List Char} (hsource : source.toList = front ++ cs) :
    Laid source (ofSource (byteSize front) cs) := by
  have hplace {part : List Char} {i : Nat} (h : StandsAt (byteSize front) cs part i) :
      (Span.ofBounds i (i + byteSize part)).Within source := by
    rw [← Nat.zero_add (byteSize front)] at h
    exact Span.within_of_standsAt (hsource ▸ h.append_left front)
  have hcover := Token.cover_ofText (byteSize front) cs
  rw [ofSource]
  cases htokens : Token.ofText (byteSize front) cs with
  | error fault =>
    rw [htokens] at hcover
    obtain ⟨i, hbrace, rfl⟩ := hcover
    exact .single (hplace hbrace) rfl
  | ok tokens =>
    rw [htokens] at hcover
    obtain ⟨hlocated, hall⟩ := hcover
    refine laid_ofTokens (fun t ht => hplace (hall t ht)) ?_
    rw [hlocated, hsource, locate_append, Nat.zero_add]
    exact List.sublist_append_right _ _

/-! ## Characters -/

/-- What makes a statement of a source invalid is placed. -/
theorem LiesIn.placed_of_invalid? {fault : Finding} (hs : s.LiesIn source)
    (h : s.invalid? = some fault) : fault.diagnostic.Placed source := by
  -- A character of a statement is a piece of it.
  have hplace {p : Piece} (hp : p.LiesIn s) : (s.spanOfPiece p).Within source :=
    hs.within_spanOfPiece hp
  rcases invalid?_cases h with ⟨c, rest, htext, rfl⟩ | ⟨i, c, hfirst, rfl⟩
  · have hchar : Piece.LiesIn s ⟨0, [c]⟩ :=
      (Piece.liesIn_whole s).part [] rest htext rfl fun h => by cases h
    exact .single (hplace hchar) rfl
  · obtain ⟨before, after, hpart, hstart⟩ := standsAt_of_firstUnordinary? hfirst
    have hchar : Piece.LiesIn s ⟨i, [c]⟩ :=
      (Form.liesIn_checked s).part before after hpart hstart fun h => by cases h
    exact .pair (hplace hchar) hs.within_span (hs.span_holds _ _) rfl

/-! ## Forms -/

/-- What is wrong with a name in a statement of a source is placed. -/
theorem LiesIn.placed_of_nameFault? {marks : String} {name : Piece} {fault : Finding}
    (hs : s.LiesIn source) (hname : name.LiesIn s) (h : s.nameFault? marks name = some fault) :
    fault.diagnostic.Placed source := by
  have hplace := hs.within_spanOfPiece hname
  rw [nameFault?] at h
  split at h
  · cases h
    exact .pair hplace hs.within_span (hs.span_holds _ _) rfl
  · obtain ⟨c, -, rfl⟩ := Option.map_eq_some_iff.1 h
    exact .single hplace rfl

end Statement

namespace Term

variable {source : String} {s : Statement} {rhs p : Piece}

/-- The modifier of a term lies where the term does. -/
theorem liesIn_modifier {term : Piece} {t : Term} (hterm : term.LiesIn s)
    (h : read s rhs term = .ok t) {modifier : Piece} (hmodifier : modifier ∈ t.modifier) :
    modifier.LiesIn s := by
  rw [read] at h
  split at h
  · cases h
  · split at h
    case h_1 =>
      cases h
      cases hmodifier
    case h_2 first name hparts =>
      cases h
      cases hmodifier
      exact hterm.of_mem_splitAll ['*'] (by decide) (hparts ▸ List.mem_cons_self)
    case h_3 => cases h

/-- What is wrong with a term is placed. -/
theorem placed_of_read {term : Piece} {fault : Finding} (hs : s.LiesIn source)
    (hrhs : rhs.LiesIn s) (hterm : term.LiesIn s) (h : read s rhs term = .error fault) :
    fault.diagnostic.Placed source := by
  rw [read] at h
  split at h
  · cases h
    refine .single (hs.within_spanOfPiece ?_) rfl
    split
    · exact hrhs
    · exact hterm
  · split at h
    case h_1 | h_2 => cases h
    case h_3 =>
      cases h
      exact .single (hs.within_spanOfPiece hterm) rfl

/-- What is found on the terms of a relation is placed. -/
theorem placed_readEach {pieces : List Piece} (hs : s.LiesIn source) (hrhs : rhs.LiesIn s)
    (hpieces : ∀ p ∈ pieces, p.LiesIn s) :
    ∀ f ∈ (readEach s rhs pieces).1, f.diagnostic.Placed source := by
  induction pieces with
  | nil =>
    intro f hf
    cases hf
  | cons p pieces ih =>
    have hp := hpieces p List.mem_cons_self
    rw [readEach]
    cases hread : read s rhs p with
    | error fault => exact List.forall_mem_singleton.2 (placed_of_read hs hrhs hp hread)
    | ok t =>
      intro f hf
      rcases List.mem_append.1 hf with hf | hf
      · obtain ⟨modifier, hmodifier, rfl⟩ := List.mem_map.1 hf
        have hmodifier := (Option.mem_filter_iff.1 (Option.mem_toList.1 hmodifier)).1
        exact .single (hs.within_spanOfPiece (liesIn_modifier hp hread hmodifier)) rfl
      · exact ih (fun p hp => hpieces p (List.mem_cons_of_mem _ hp)) f hf

end Term

namespace Form

variable {source : String} {s : Statement} {form : Form} {f : Finding}

/-- What is found on a relation is placed. -/
theorem placed_readRelation (hs : s.LiesIn source) (hform : s.form? = some form)
    (hf : f ∈ (form.readRelation s).1) : f.diagnostic.Placed source := by
  cases form with
  | relation op lhs rhs =>
    have hparts {p : Piece} (hp : p ∈ [lhs, rhs]) : p.LiesIn s := liesIn_of_form? hform hp
    rw [readRelation] at hf
    split at hf
    case h_1 fault hname =>
      rw [List.mem_singleton.1 hf]
      exact hs.placed_of_nameFault? (hparts (by simp)) hname
    case h_2 =>
      have hrhs := hparts (List.mem_cons_of_mem _ List.mem_cons_self)
      have hterms : ∀ p ∈ rhs.splitAll ['+'], p.LiesIn s := fun p hp =>
        hrhs.of_mem_splitAll ['+'] (by decide) hp
      exact Term.placed_readEach hs hrhs hterms f hf
  | _ => cases hf

/-- What is wrong with a bound is placed. -/
theorem placed_boundFault? {t : Table} (hs : s.LiesIn source) (hform : s.form? = some form)
    (hf : form.boundFault? t s = some f) : f.diagnostic.Placed source := by
  cases form with
  | bound side target value =>
    have htarget : target.LiesIn s := liesIn_of_form? hform List.mem_cons_self
    rw [boundFault?] at hf
    split at hf
    · cases hf
      exact .single hs.within_span rfl
    · split at hf
      · cases hf
      · cases hf
        exact .pair (hs.within_spanOfPiece htarget) hs.within_span (hs.span_holds _ _) rfl
  | _ => cases hf

/-- What is wrong with a declaration is placed. -/
theorem placed_declarationFault? (hs : s.LiesIn source) (hform : s.form? = some form)
    (hf : form.declarationFault? s = some f) : f.diagnostic.Placed source := by
  cases form with
  | declaration name =>
    exact hs.placed_of_nameFault? (liesIn_of_form? hform List.mem_cons_self) hf
  | _ => cases hf

/-- What is wrong with a definition is placed. -/
theorem placed_definitionFault? (hs : s.LiesIn source) (hform : s.form? = some form)
    (hf : form.definitionFault? s = some f) : f.diagnostic.Placed source := by
  cases form with
  | definition name expression =>
    rcases Option.or_eq_some_iff.1 hf with hf | ⟨-, hf⟩
    · exact hs.placed_of_nameFault? (liesIn_of_form? hform List.mem_cons_self) hf
    · split at hf
      · cases hf
        exact .single hs.within_span rfl
      · cases hf
  | _ => cases hf

end Form

end StructuralModel
