import Mathlib.Data.List.Basic
import StructuralModel.Proofs.Model.Described

/-!
# Statements in any order

Statements of different kinds may be mixed in any way. Each part of a model, and each group of what
is found on its statements, comes from the statements of one *group* (`Form.Group`): the relations,
the bounds, the declarations, the definitions, the blocks, or the statements without form. The forms
of other groups leave the part as it is, so it does not matter where they stand.

* `build_eq_of_groups`: what is built from statements depends only on the statements of each group,
  in their order.
-/

namespace StructuralModel

/-- The statements that make up one part of a model. Relations are of one group whatever operators
    they have, and so are bounds on either side. -/
inductive Form.Group where
  | block
  | relation
  | definition
  | bound
  | declaration
  deriving DecidableEq, Repr

/-- The group of a form. -/
def Form.group : Form → Group
  | block => .block
  | relation _ _ _ => .relation
  | definition _ _ => .definition
  | bound _ _ _ => .bound
  | declaration _ => .declaration

/-- The group of a statement; nothing if the statement has no form. -/
def Statement.group? (s : Statement) : Option Form.Group :=
  s.form?.map Form.group

/-- The statements of one group, or those without form, in their order. -/
def Statement.ofGroup (group : Option Form.Group) (statements : List Statement) : List Statement :=
  statements.filter fun s => s.group? == group

/-! ## Forms of other groups -/

namespace Form

variable {form : Form}

theorem readRelation_of_group_ne (h : form.group ≠ .relation) (s : Statement) :
    form.readRelation s = ([], []) := by
  cases form with
  | relation => exact absurd rfl h
  | _ => rfl

theorem boundFault?_of_group_ne (h : form.group ≠ .bound) (t : Table) (s : Statement) :
    form.boundFault? t s = none := by
  cases form with
  | bound => exact absurd rfl h
  | _ => rfl

theorem applyBound_of_group_ne (h : form.group ≠ .bound) (t : Table) : form.applyBound t = t := by
  cases form with
  | bound => exact absurd rfl h
  | _ => rfl

theorem declarationFault?_of_group_ne (h : form.group ≠ .declaration) (s : Statement) :
    form.declarationFault? s = none := by
  cases form with
  | declaration => exact absurd rfl h
  | _ => rfl

theorem declare_of_group_ne (h : form.group ≠ .declaration) (a : Algebra) : form.declare a = a := by
  cases form with
  | declaration => exact absurd rfl h
  | _ => rfl

theorem definitionFault?_of_group_ne (h : form.group ≠ .definition) (s : Statement) :
    form.definitionFault? s = none := by
  cases form with
  | definition => exact absurd rfl h
  | _ => rfl

theorem applyDefinition_of_group_ne (h : form.group ≠ .definition) (t : Table) :
    form.applyDefinition t = t := by
  cases form with
  | definition => exact absurd rfl h
  | _ => rfl

theorem define_of_group_ne (h : form.group ≠ .definition) (a : Algebra) : form.define a = a := by
  cases form with
  | definition => exact absurd rfl h
  | _ => rfl

theorem verbatim?_of_group_ne (h : form.group ≠ .block) (s : Statement) :
    form.verbatim? s = none := by
  cases form with
  | block => exact absurd rfl h
  | _ => rfl

end Form

namespace Model

open Form Statement

variable {α : Type} {statements others : List Statement} {group : Group}

/-! ## The forms of one group -/

/-- The forms of one group are the forms of its statements. -/
theorem filter_formed (group : Group) (statements : List Statement) :
    (formed statements).filter (fun p => p.2.group == group) =
      formed (ofGroup (some group) statements) := by
  rw [formed, formed, ofGroup, List.filter_filterMap, List.filterMap_filter]
  refine List.filterMap_congr fun s _ => ?_
  rw [group?]
  cases s.form? with
  | none => rfl
  | some form => by_cases h : form.group = group <;> simp [Option.filter, h]

/-- What is found on the forms of one group only, is found on its statements. -/
theorem filterMap_formed {f : Statement × Form → Option α}
    (hf : ∀ s form, form.group ≠ group → f (s, form) = none) (statements : List Statement) :
    (formed statements).filterMap f = (formed (ofGroup (some group) statements)).filterMap f := by
  rw [← filter_formed, List.filterMap_filter]
  refine List.filterMap_congr fun p _ => ?_
  by_cases h : p.2.group = group
  · simp [h]
  · simp [h, hf p.1 p.2 h]

/-- What the forms of one group only contribute, its statements contribute. -/
theorem flatMap_formed {f : Statement × Form → List α}
    (hf : ∀ s form, form.group ≠ group → f (s, form) = []) (statements : List Statement) :
    (formed statements).flatMap f = (formed (ofGroup (some group) statements)).flatMap f := by
  rw [← filter_formed]
  induction formed statements with
  | nil => rfl
  | cons p rest ih =>
    rw [List.flatMap_cons, ih, List.filter_cons]
    split
    case isTrue => rw [List.flatMap_cons]
    case isFalse h => rw [hf p.1 p.2 (by simpa using h), List.nil_append]

/-- A form is missed only where there is none. -/
theorem filterMap_formFault? (statements : List Statement) :
    statements.filterMap formFault? = (ofGroup none statements).filterMap formFault? := by
  rw [ofGroup, List.filterMap_filter]
  refine List.filterMap_congr fun s _ => ?_
  rw [formFault?, group?]
  cases s.form? <;> rfl

/-- What the forms of one group only change, its statements change. -/
theorem foldl_formed_ofGroup {f : α → Form → α}
    (hf : ∀ a form, form.group ≠ group → f a form = a) (a : α) (statements : List Statement) :
    ((formed statements).map Prod.snd).foldl f a =
      ((formed (ofGroup (some group) statements)).map Prod.snd).foldl f a := by
  rw [← filter_formed, List.foldl_map, List.foldl_map, List.foldl_filter]
  congr 1
  funext a p
  by_cases h : p.2.group = group
  · simp [h]
  · simp [h, hf a p.2 h]

/-! ## The parts of a model -/

section

variable (h : ∀ group, ofGroup group statements = ofGroup group others)
include h

/-- Rows come from relations. -/
theorem relationTable_congr : relationTable statements = relationTable others := by
  have hrows : ∀ s (form : Form), form.group ≠ .relation → (form.readRelation s).2 = [] :=
    fun s _ hform => congrArg Prod.snd (readRelation_of_group_ne hform s)
  rw [relationTable, relationTable, flatMap_formed hrows, h, ← flatMap_formed hrows]

/-- What is found on statements is found on one group after the other. -/
theorem findings_congr : findings statements = findings others := by
  have hrelations : ∀ s (form : Form), form.group ≠ .relation → (form.readRelation s).1 = [] :=
    fun s _ hform => congrArg Prod.fst (readRelation_of_group_ne hform s)
  have hfilter {group : Group} {f : Statement × Form → Option Finding}
      (hf : ∀ s form, form.group ≠ group → f (s, form) = none) :
      (formed statements).filterMap f = (formed others).filterMap f := by
    rw [filterMap_formed hf, h, ← filterMap_formed hf]
  -- Bounds are looked for in the rows of all relations, which are the same.
  rw [findings, findings, relationTable_congr h, filterMap_formFault?, h,
    ← filterMap_formFault?]
  simp only
  rw [flatMap_formed hrelations, h, ← flatMap_formed hrelations,
    hfilter fun s _ hform => boundFault?_of_group_ne hform _ s,
    hfilter fun s _ hform => declarationFault?_of_group_ne hform s,
    hfilter fun s _ hform => definitionFault?_of_group_ne hform s]

/-- Each part of the model is made by one group. -/
theorem ofStatements_congr : ofStatements statements = ofStatements others := by
  have hfold {α : Type} {group : Group} {f : α → Form → α}
      (hf : ∀ a form, form.group ≠ group → f a form = a) (a : α) :
      ((formed statements).map Prod.snd).foldl f a =
        ((formed others).map Prod.snd).foldl f a := by
    rw [foldl_formed_ofGroup hf, h, ← foldl_formed_ofGroup hf]
  have hblocks : ∀ s (form : Form), form.group ≠ .block → form.verbatim? s = none :=
    fun s _ hform => verbatim?_of_group_ne hform s
  rw [ofStatements, ofStatements, relationTable_congr h, findings_congr h]
  simp only
  rw [hfold fun t _ hform => applyBound_of_group_ne hform t,
    hfold fun t _ hform => applyDefinition_of_group_ne hform t,
    hfold fun a _ hform => declare_of_group_ne hform a,
    hfold fun a _ hform => define_of_group_ne hform a, filterMap_formed hblocks, h,
    ← filterMap_formed hblocks]

end

/-- Statements of different groups may be mixed in any way: what is built from them, or found to be
    wrong, depends only on the statements of each group, in their order. -/
theorem build_eq_of_groups (h : ∀ group, ofGroup group statements = ofGroup group others) :
    build statements = build others := by
  rw [build, build, findings_congr h, ofStatements_congr h]

/-- The statements of `mixed`, one group after the other. -/
def grouped : List Statement :=
  ["{raw +}", "f=~a*x+2*y", "y~a*z+b*x", "q:=a*2", "b:=q", "a>.2", "b<1", "a>.5", "!q", "!p",
    "!q"].map Statement.ofText

/-- Whether the relations of a model come first or last, the model is the same. -/
theorem build_mixed_eq_build_grouped :
    (∀ group, ofGroup group mixed = ofGroup group grouped) ∧ build mixed = build grouped := by
  have h : ∀ group, ofGroup group mixed = ofGroup group grouped := by
    rintro (_ | _ | _ | _ | _ | _) <;> decide +kernel
  exact ⟨h, build_eq_of_groups h⟩

end Model

end StructuralModel
