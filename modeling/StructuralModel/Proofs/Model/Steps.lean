import StructuralModel.Proofs.Model.Completed
import StructuralModel.Proofs.Model.Reading
import StructuralModel.Proofs.Statement.Placed

/-!
# Faults of one step

A model text is read in steps, and no step is begun unless the ones before it have succeeded. So
what is reported of a text that is refused was all found in one step, and its codes tell in which
one (`Model.OfOneStep`): the layout has one fault, and so has a text without statements; faults of
characters come from all statements; and faults of the parts of statements may stand among remarks
on modifiers `NA`.

* `ofOneStep_of_parse`: what is found when a text is refused is of one step;
* `isFault_identify`: remarks on how a table is identified are no faults;
* `ofOneStep_compile`: whatever is compiled, the code of a diagnostic tells whether it is an error,
  and the remarks on a model are no errors.
-/

namespace StructuralModel

namespace Code

/-- What may be wrong with the layout of a text. -/
def ofLayout : List Code :=
  [unbalancedBraces, danglingContinuation]

/-- What may be wrong with the characters of a statement. -/
def ofCharacters : List Code :=
  [invalidStart, invalidCharacter]

/-- What may be wrong with the parts of a statement. -/
def ofParts : List Code :=
  [invalidName, ambiguousModifier, missingOperator, emptyPart, unknownLabel]

example : (ofLayout.map name, ofCharacters.map name, ofParts.map name) =
    (["E001", "E002"], ["E100", "E101"], ["E200", "E201", "E202", "E203", "E300"]) := rfl

example : (missingModel.name, missingValueLabel.name) = ("E003", "W100") := rfl

/-- Whether a code is one of errors: its name starts with an `E`. -/
def isError (code : Code) : Bool :=
  code.name.toList.head? == some 'E'

end Code

namespace Finding

/-- The code of a finding is one of `codes`. -/
def HasCode (codes : List Code) (f : Finding) : Prop :=
  ∃ code ∈ codes, f.diagnostic.code = some code

/-- The code of a finding tells whether it is a fault. -/
theorem isFault_eq (f : Finding) : f.isFault = f.diagnostic.code.any Code.isError := by
  cases f <;> rfl

theorem HasCode.cons {f : Finding} {codes : List Code} (h : f.HasCode codes) (code : Code) :
    f.HasCode (code :: codes) := by
  obtain ⟨found, hfound, heq⟩ := h
  exact ⟨found, List.mem_cons_of_mem _ hfound, heq⟩

end Finding

open Finding

/-! ## Layout and characters -/

namespace Statement

variable {s : Statement} {f : Finding}

/-- What is wrong with the layout of tokens. -/
theorem hasCode_of_ofTokens {isOpen : Bool} {tokens : List Token}
    (h : ofTokens s isOpen tokens = .error f) : f.HasCode Code.ofLayout := by
  have hmap {s : Statement} {found : Except Finding (List Statement)}
      (h : found.map (s.finished ++ ·) = .error f) : found = .error f := by
    cases found with
    | error => exact h
    | ok => cases h
  induction tokens generalizing s isOpen with
  | nil => cases h
  | cons t tokens ih =>
    rw [ofTokens] at h
    split at h
    case h_1 | h_2 => exact ih h
    case h_3 =>
      split at h
      · exact ih h
      · exact ih (hmap h)
    case h_4 =>
      split at h
      · cases h
        exact ⟨.danglingContinuation, by decide, rfl⟩
      · exact ih (hmap h)
    case h_5 =>
      cases h
      exact ⟨.unbalancedBraces, by decide, rfl⟩
    case h_6 | h_7 => exact ih h

/-- What is wrong with the layout of a text. -/
theorem hasCode_of_ofSource {start : Nat} {cs : List Char} (h : ofSource start cs = .error f) :
    f.HasCode Code.ofLayout := by
  have hcover := Token.cover_ofText start cs
  rw [ofSource] at h
  cases htokens : Token.ofText start cs with
  | error fault =>
    rw [htokens] at h hcover
    cases h
    obtain ⟨i, -, rfl⟩ := hcover
    exact ⟨.unbalancedBraces, by decide, rfl⟩
  | ok tokens =>
    rw [htokens] at h
    exact hasCode_of_ofTokens h

/-- What makes a statement invalid. -/
theorem hasCode_of_invalid? (h : s.invalid? = some f) : f.HasCode Code.ofCharacters := by
  rcases invalid?_cases h with ⟨-, -, -, rfl⟩ | ⟨-, -, -, rfl⟩
  · exact ⟨.invalidStart, by decide, rfl⟩
  · exact ⟨.invalidCharacter, by decide, rfl⟩

/-! ## Parts -/

theorem hasCode_of_formFault? (h : s.formFault? = some f) : f.HasCode Code.ofParts := by
  rw [formFault?] at h
  split at h
  · cases h
  · cases h
    exact ⟨.missingOperator, by decide, rfl⟩

theorem hasCode_of_nameFault? {marks : String} {name : Piece}
    (h : s.nameFault? marks name = some f) : f.HasCode Code.ofParts := by
  rw [nameFault?] at h
  split at h
  · cases h
    exact ⟨.invalidName, by decide, rfl⟩
  · obtain ⟨c, -, rfl⟩ := Option.map_eq_some_iff.1 h
    exact ⟨.invalidName, by decide, rfl⟩

end Statement

namespace Term

variable {s : Statement} {rhs : Piece} {f : Finding}

theorem hasCode_of_read {term : Piece} (h : read s rhs term = .error f) :
    f.HasCode Code.ofParts := by
  rw [read] at h
  split at h
  · cases h
    exact ⟨.emptyPart, by decide, rfl⟩
  · split at h
    case h_1 | h_2 => cases h
    case h_3 =>
      cases h
      exact ⟨.ambiguousModifier, by decide, rfl⟩

/-- What is found on terms is a fault, or a remark on a modifier `NA`. -/
theorem hasCode_readEach (pieces : List Piece) : ∀ f ∈ (readEach s rhs pieces).1,
    f.HasCode (.missingValueLabel :: Code.ofParts) := by
  induction pieces with
  | nil => exact fun _ hf => (by cases hf)
  | cons p pieces ih =>
    rw [readEach]
    cases hread : read s rhs p with
    | error fault => exact List.forall_mem_singleton.2 ((hasCode_of_read hread).cons _)
    | ok t =>
      intro f hf
      rcases List.mem_append.1 hf with hf | hf
      · obtain ⟨modifier, -, rfl⟩ := List.mem_map.1 hf
        exact ⟨.missingValueLabel, List.mem_cons_self, rfl⟩
      · exact ih f hf

end Term

namespace Form

variable {s : Statement} {form : Form} {f : Finding}

theorem hasCode_readRelation (hf : f ∈ (form.readRelation s).1) :
    f.HasCode (.missingValueLabel :: Code.ofParts) := by
  cases form with
  | relation op lhs rhs =>
    rw [readRelation] at hf
    split at hf
    case h_1 fault hname =>
      rw [List.mem_singleton.1 hf]
      exact (Statement.hasCode_of_nameFault? hname).cons _
    case h_2 => exact Term.hasCode_readEach _ f hf
  | _ => cases hf

theorem hasCode_of_boundFault? {t : Table} (hf : form.boundFault? t s = some f) :
    f.HasCode Code.ofParts := by
  cases form with
  | bound side target value =>
    rw [boundFault?] at hf
    split at hf
    · cases hf
      exact ⟨.emptyPart, by decide, rfl⟩
    · split at hf
      · cases hf
      · cases hf
        exact ⟨.unknownLabel, by decide, rfl⟩
  | _ => cases hf

theorem hasCode_of_declarationFault? (hf : form.declarationFault? s = some f) :
    f.HasCode Code.ofParts := by
  cases form with
  | declaration => exact Statement.hasCode_of_nameFault? hf
  | _ => cases hf

theorem hasCode_of_definitionFault? (hf : form.definitionFault? s = some f) :
    f.HasCode Code.ofParts := by
  cases form with
  | definition name expression =>
    rcases Option.or_eq_some_iff.1 hf with hf | ⟨-, hf⟩
    · exact Statement.hasCode_of_nameFault? hf
    · split at hf
      · cases hf
        exact ⟨.emptyPart, by decide, rfl⟩
      · cases hf
  | _ => cases hf

end Form

namespace Model

/-- What is found on statements is wrong with their parts, or a remark on a modifier `NA`. -/
theorem hasCode_findings (statements : List Statement) : ∀ f ∈ findings statements,
    f.HasCode (.missingValueLabel :: Code.ofParts) := by
  intro f hf
  have hformed {g : Statement × Form → Option Finding}
      (hg : ∀ s form, g (s, form) = some f → f.HasCode Code.ofParts)
      (hf : f ∈ (formed statements).filterMap g) :
      f.HasCode (.missingValueLabel :: Code.ofParts) := by
    obtain ⟨⟨s, form⟩, -, hf⟩ := List.mem_filterMap.1 hf
    exact (hg s form hf).cons _
  rw [findings] at hf
  simp only [List.mem_append] at hf
  rcases hf with (((hf | hf) | hf) | hf) | hf
  · obtain ⟨s, -, hf⟩ := List.mem_filterMap.1 hf
    exact (Statement.hasCode_of_formFault? hf).cons _
  · obtain ⟨p, -, hf⟩ := List.mem_flatMap.1 hf
    exact Form.hasCode_readRelation hf
  · exact hformed (fun _ _ => Form.hasCode_of_boundFault?) hf
  · exact hformed (fun _ _ => Form.hasCode_of_declarationFault?) hf
  · exact hformed (fun _ _ => Form.hasCode_of_definitionFault?) hf

/-- What was found in the one step in which a text was refused. -/
inductive OfOneStep (source : String) : List Finding → Prop
  /-- In the layout there is one fault. -/
  | layout {fault : Finding} :
      Statement.ofSource (Heading.ofSource source.toList).offset
        (Heading.ofSource source.toList).body = .error fault →
      fault.HasCode Code.ofLayout → OfOneStep source [fault]
  /-- The layout is in order, and there are no statements. -/
  | empty {fault : Finding} :
      Statement.ofSource (Heading.ofSource source.toList).offset
        (Heading.ofSource source.toList).body = .ok [] →
      fault.HasCode [.missingModel] → OfOneStep source [fault]
  /-- There are statements, and some of their characters are not in order. -/
  | characters {faults : List Finding} {statements : List Statement} :
      Statement.ofSource (Heading.ofSource source.toList).offset
        (Heading.ofSource source.toList).body = .ok statements →
      faults ≠ [] → (∀ f ∈ faults, f.HasCode Code.ofCharacters) → OfOneStep source faults
  /-- The statements are valid, and some part of them is at fault; beside faults there are but
      remarks on modifiers `NA`. -/
  | parts {found : List Finding} {statements : List Statement} :
      Statement.ofSource (Heading.ofSource source.toList).offset
        (Heading.ofSource source.toList).body = .ok statements →
      Statement.validate statements = .ok () → (∃ f ∈ found, f.HasCode Code.ofParts) →
      (∀ f ∈ found, f.HasCode (.missingValueLabel :: Code.ofParts)) → OfOneStep source found

/-- A text that is refused is refused in one step. -/
theorem ofOneStep_of_parse {source : String} {found : List Finding}
    (h : parse source = .error found) : OfOneStep source found := by
  rw [parse_eq] at h
  cases hs : Statement.ofSource (Heading.ofSource source.toList).offset
      (Heading.ofSource source.toList).body with
  | error fault =>
    rw [hs] at h
    cases h
    exact .layout hs (Statement.hasCode_of_ofSource hs)
  | ok statements =>
    rw [hs] at h
    change ofBody _ _ statements = .error found at h
    rw [ofBody] at h
    split at h
    case isTrue hempty =>
      cases h
      obtain rfl := List.isEmpty_iff.1 hempty
      exact .empty hs ⟨.missingModel, List.mem_cons_self, rfl⟩
    case isFalse =>
      cases hv : Statement.validate statements with
      | error faults =>
        rw [hv] at h
        cases h
        rw [Statement.validate] at hv
        split at hv
        case h_1 => cases hv
        case h_2 hne =>
          cases hv
          refine .characters hs hne fun f hf => ?_
          obtain ⟨s, -, hf⟩ := List.mem_filterMap.1 hf
          exact Statement.hasCode_of_invalid? hf
      | ok =>
        rw [hv, Except.bind, build] at h
        split at h
        case isFalse => cases h
        case isTrue hfault =>
          cases h
          have hcode := hasCode_findings statements
          refine .parts hs hv ?_ hcode
          obtain ⟨f, hf, hfault⟩ := List.any_eq_true.1 hfault
          obtain ⟨code, hmem, heq⟩ := hcode f hf
          -- A remark on a modifier is no fault.
          rcases List.mem_cons.1 hmem with rfl | hmem
          · rw [isFault_eq, heq] at hfault
            cases hfault
          · exact ⟨f, hf, code, hmem, heq⟩

/-- The remarks on a model that was read are no faults. -/
theorem isFault_of_parse {source : String} {m : Model} (h : parse source = .ok m) :
    ∀ f ∈ m.remarks, f.isFault = false := by
  obtain ⟨statements, -, -, -, hfault, rfl⟩ := parse_eq_ok_iff_steps.1 h
  exact fun f hf => Bool.eq_false_iff.2 (List.any_eq_false.1 hfault f hf)

end Model

/-! ## Identification -/

namespace Table

theorem isFault_scaleLatentVariance (t : Table) (latent : String) :
    ∀ f ∈ (t.scaleLatentVariance latent).2, f.isFault = false := by
  rw [scaleLatentVariance]
  split
  case h_1 => exact List.forall_mem_singleton.2 rfl
  case h_2 =>
    split
    case h_1 => exact fun _ hf => (by cases hf)
    case h_2 | h_3 => exact List.forall_mem_singleton.2 rfl

theorem isFault_scaleLoading (t : Table) (latent : String) :
    ∀ f ∈ (t.scaleLoading latent).2, f.isFault = false := by
  rw [scaleLoading]
  split
  case h_1 => exact List.forall_mem_singleton.2 rfl
  case h_2 =>
    split
    · exact fun _ hf => (by cases hf)
    · exact List.forall_mem_singleton.2 rfl

/-- If no remark on one latent variable is a fault, none is on several ones. -/
theorem isFault_scaleEach {scale : Table → String → Table × List Finding}
    (h : ∀ t latent, ∀ f ∈ (scale t latent).2, f.isFault = false) (t : Table)
    (latents : List String) : ∀ f ∈ (scaleEach scale t latents).2, f.isFault = false := by
  induction latents generalizing t with
  | nil => exact fun _ hf => (by cases hf)
  | cons latent latents ih =>
    intro f hf
    rcases List.mem_append.1 hf with hf | hf
    · exact h t latent f hf
    · exact ih _ f hf

/-- The remarks on how a table is identified are no faults. -/
theorem isFault_identify (o : Options) (latents : List String) (t : Table) :
    ∀ f ∈ (t.identify o latents).2, f.isFault = false := by
  intro f hf
  rw [identify] at hf
  rcases List.mem_append.1 hf with hf | hf
  · split at hf
    · exact isFault_scaleEach isFault_scaleLatentVariance _ latents f hf
    · cases hf
  · split at hf
    · exact isFault_scaleEach isFault_scaleLoading _ latents f hf
    · cases hf

end Table

/-! ## Compilation -/

/-- A text that is refused is refused in one step. Whatever is compiled, a diagnostic is an error
    iff its code is one of errors, and no remark on a model is an error. -/
theorem ofOneStep_compile (o : Options) (source : String) :
    (∀ faults, Model.parse source = .error faults → Model.OfOneStep source faults) ∧
      match compile o source with
      | .error faults => ∀ f ∈ faults, f.diagnostic.isError = f.diagnostic.code.any Code.isError
      | .ok m => ∀ f ∈ m.remarks, f.diagnostic.isError = f.diagnostic.code.any Code.isError ∧
          f.diagnostic.isError = false := by
  refine ⟨fun faults => Model.ofOneStep_of_parse, ?_⟩
  rw [compile]
  cases hp : Model.parse source with
  | error faults => exact fun f _ => isFault_eq f
  | ok p =>
    refine fun f hf => ⟨isFault_eq f, ?_⟩
    rcases List.mem_append.1 hf with hf | hf
    · exact Model.isFault_of_parse hp f hf
    · exact Table.isFault_identify o _ _ f hf

/-- A text with an empty term and a modifier `NA` is refused for the term. -/
theorem ofOneStep_compile_emptyTerm :
    ∃ faults, Model.parse "f =~ NA*x + + y" = .error faults ∧
      Model.OfOneStep "f =~ NA*x + + y" faults := by
  cases h : Model.parse "f =~ NA*x + + y" with
  | error faults => exact ⟨faults, rfl, (ofOneStep_compile {} _).1 faults h⟩
  | ok m =>
    have : (Model.parse "f =~ NA*x + + y").toOption = none := by decide +kernel
    rw [h] at this
    cases this

end StructuralModel
