import StructuralModel.Proofs.Heading
import StructuralModel.Proofs.Model.Reading
import StructuralModel.Proofs.Statement.Shifted

/-!
# Models behind a heading

A heading says what a model is called, and nothing else. The text behind it is read as it is read
on its own, only that it stands further behind in the source: rows and labels of diagnostics move by
the bytes in front of the text.

* `Model.findings_shift`, `Model.build_shift`: what is built from shifted statements;
* `Model.parse_append`: a text behind a heading is the text on its own, shifted and named.
-/

namespace StructuralModel

open Text (byteSize)

/-! ## Tables -/

theorem Table.updateLabelled_shift (n : Nat) (name : String) {change : Relation → Relation}
    (h : ∀ r, change (r.shift n) = (change r).shift n) (t : Table) :
    (t.shift n).updateLabelled name change = (t.updateLabelled name change).shift n := by
  rw [updateLabelled, updateLabelled, shift, shift, List.map_map, List.map_map]
  refine congrArg (fun f => Table.mk (t.rows.map f)) (funext fun r => ?_)
  have hlabel : (r.shift n).hasLabel name = r.hasLabel name := rfl
  rw [Function.comp_apply, Function.comp_apply, hlabel, h]
  split <;> rfl

namespace Model

/-- The model whose text stands `n` bytes further behind. -/
def shift (n : Nat) (m : Model) : Model :=
  { m with table := m.table.shift n, remarks := m.remarks.map (Finding.shift n) }

variable {statements : List Statement}

/-! ## Building -/

theorem formed_shift (n : Nat) (statements : List Statement) :
    formed (statements.map (Statement.shift n)) =
      (formed statements).map fun p => (p.1.shift n, p.2) := by
  rw [formed, formed, List.filterMap_map, List.map_filterMap]
  refine congrArg (List.filterMap · statements) (funext fun s => ?_)
  rw [Function.comp_apply, Statement.form?_shift, Option.map_map]
  rfl

/-- The rows of shifted statements are shifted. -/
theorem relationTable_shift (h : ∀ s ∈ statements, s.text ≠ []) (n : Nat) :
    relationTable (statements.map (Statement.shift n)) = (relationTable statements).shift n := by
  rw [relationTable, relationTable, Table.shift, formed_shift, List.flatMap_map, List.map_flatMap]
  refine congrArg Table.mk (List.flatMap_congr fun p hp => ?_)
  exact congrArg Prod.snd (Form.readRelation_shift (h p.1 (mem_formed.1 hp).1) n p.2)

/-- What is found on shifted statements is shifted. -/
theorem findings_shift (h : ∀ s ∈ statements, s.text ≠ []) (n : Nat) :
    findings (statements.map (Statement.shift n)) =
      (findings statements).map (Finding.shift n) := by
  have hne {p : Statement × Form} (hp : p ∈ formed statements) : p.1.text ≠ [] :=
    h p.1 (mem_formed.1 hp).1
  have hrelations : ((formed statements).flatMap fun p => (p.2.readRelation (p.1.shift n)).1) =
      ((formed statements).flatMap fun p => (p.2.readRelation p.1).1).map (Finding.shift n) := by
    rw [List.map_flatMap]
    exact List.flatMap_congr fun p hp => congrArg Prod.fst (Form.readRelation_shift (hne hp) n p.2)
  rw [findings, findings, relationTable_shift h, formed_shift]
  simp only [List.filterMap_map, List.flatMap_map, List.map_append, Function.comp_def]
  rw [Finding.filterMap_shift fun s hs => Statement.formFault?_shift (h s hs) n, hrelations,
    Finding.filterMap_shift fun p hp => Form.boundFault?_shift (hne hp) n _ p.2,
    Finding.filterMap_shift fun p hp => Form.declarationFault?_shift (hne hp) n p.2,
    Finding.filterMap_shift fun p hp => Form.definitionFault?_shift (hne hp) n p.2]

/-- The blocks of shifted statements are those of the statements. -/
theorem blocks_shift (statements : List Statement) (n : Nat) :
    ((formed (statements.map (Statement.shift n))).filterMap fun (s, form) => form.verbatim? s) =
      (formed statements).filterMap fun (s, form) => form.verbatim? s := by
  rw [formed_shift, List.filterMap_map]
  refine List.filterMap_congr fun p _ => ?_
  obtain ⟨s, form⟩ := p
  cases form with
  | block => exact congrArg some (Statement.render_shift n s)
  | _ => rfl

/-- Shifted statements make a shifted model. -/
theorem ofStatements_shift (h : ∀ s ∈ statements, s.text ≠ []) (n : Nat) :
    ofStatements (statements.map (Statement.shift n)) = (ofStatements statements).shift n := by
  have hforms : (formed (statements.map (Statement.shift n))).map Prod.snd =
      (formed statements).map Prod.snd := by
    rw [formed_shift, List.map_map]
    rfl
  have hbound (forms : List Form) (t : Table) :
      forms.foldl Form.applyBound (t.shift n) = (forms.foldl Form.applyBound t).shift n := by
    refine List.foldl_hom _ fun t form => ?_
    cases form with
    | bound side target value =>
      exact Table.updateLabelled_shift n _ (fun r => by cases side <;> rfl) t
    | _ => rfl
  have hdefinition (forms : List Form) (t : Table) :
      forms.foldl Form.applyDefinition (t.shift n) =
        (forms.foldl Form.applyDefinition t).shift n := by
    refine List.foldl_hom _ fun t form => ?_
    cases form with
    | definition name expression =>
      have hchange (r : Relation) : (r.shift n).markComputed = r.markComputed.shift n := rfl
      exact Table.updateLabelled_shift n _ hchange t
    | _ => rfl
  rw [ofStatements, ofStatements]
  simp only [hforms, blocks_shift, relationTable_shift h, findings_shift h, hbound, hdefinition]
  rfl

/-- What is built from shifted statements is shifted. -/
theorem build_shift (h : ∀ s ∈ statements, s.text ≠ []) (n : Nat) :
    build (statements.map (Statement.shift n)) =
      ((build statements).mapError (List.map (Finding.shift n))).map (shift n) := by
  have hfault : ((findings statements).map (Finding.shift n)).any Finding.isFault =
      (findings statements).any Finding.isFault := by
    rw [List.any_map]
    exact congrArg (List.any _) (funext (Finding.isFault_shift n))
  rw [build, build, findings_shift h, hfault, ofStatements_shift h]
  split <;> rfl

/-! ## Reading -/

/-- What is made of shifted statements is shifted, and has the name that it is given. -/
theorem ofBody_shift (h : ∀ s ∈ statements, s.text ≠ []) (n : Nat) (name name' : Option String)
    (body : Span) :
    ofBody name (body.shift n) (statements.map (Statement.shift n)) =
      ((ofBody name' body statements).mapError (List.map (Finding.shift n))).map
        fun m => { m.shift n with name } := by
  rw [ofBody, ofBody, List.isEmpty_map, Statement.validate_shift, build_shift h]
  split
  · rfl
  · cases Statement.validate statements with
    | error => rfl
    | ok =>
      show ((build statements).mapError _ |>.map (shift n)).map _ = _
      cases build statements <;> rfl

variable {p s : String} {heading : Heading}

/-- A text behind a heading is read as the text on its own is, but shifted and named. -/
theorem parse_append_eq (hfound : Heading.find? 0 (Text.lines (p ++ s).toList) = some heading)
    (hoffset : heading.offset = p.utf8ByteSize)
    (hnone : Heading.find? 0 (Text.lines s.toList) = none) :
    parse (p ++ s) =
      ((parse s).mapError (List.map (Finding.shift p.utf8ByteSize))).map
        fun m => { m.shift p.utf8ByteSize with name := heading.name } := by
  have hbody : heading.body = s.toList := by
    obtain ⟨front, hfront, hsize⟩ := Heading.exists_of_find? hfound
    rw [Text.flatten_lines, String.toList_append] at hfront
    refine (Text.append_inj_of_byteSize hfront ?_).2
    rw [Text.byteSize_toList, ← hoffset, hsize, Nat.zero_add]
  have hspan : Span.ofBounds p.utf8ByteSize (byteSize (p ++ s).toList) =
      (Span.ofBounds 0 (byteSize s.toList)).shift p.utf8ByteSize := by
    rw [Span.shift_ofBounds, String.toList_append, Text.byteSize_append, Text.byteSize_toList p,
      Nat.zero_add, Nat.add_comm]
  have hfound : Heading.ofSource (p ++ s).toList = heading := by
    rw [Heading.ofSource, hfound]
    rfl
  have hnone : Heading.ofSource s.toList = { name := none, body := s.toList, offset := 0 } := by
    rw [Heading.ofSource, hnone]
    rfl
  have hstatements := Statement.ofSource_add p.utf8ByteSize 0 s.toList
  rw [Nat.zero_add] at hstatements
  rw [parse_eq, parse_eq, hfound, hnone, hoffset, hbody, hspan, hstatements]
  cases hs : Statement.ofSource 0 s.toList with
  | error => rfl
  | ok statements =>
    exact ofBody_shift (fun s h => ((compact_of_ofSource hs).1 s h).1) _ _ _ _

/-- What a text is read as on its own, and behind a heading with the name `name` that ends at byte
    `n`: the same, but for the name, and with all places `n` bytes further behind. -/
def Behind (n : Nat) (name : Option String) :
    Except (List Finding) Model → Except (List Finding) Model → Prop
  | .ok m, .ok m' =>
    m'.name = name ∧ m'.table.rows = m.table.rows.map (Relation.shift n) ∧ m'.algebra = m.algebra ∧
      m'.blocks = m.blocks ∧
      m'.remarks.map Finding.diagnostic = m.remarks.map fun f => f.diagnostic.shift n
  | .error faults, .error faults' =>
    faults'.map Finding.diagnostic = faults.map fun f => f.diagnostic.shift n
  | _, _ => False

/-- A heading only names a model and moves its text: the text behind it is read iff it is read on
    its own, as the same model or with the same faults. -/
theorem parse_append (hfound : Heading.find? 0 (Text.lines (p ++ s).toList) = some heading)
    (hoffset : heading.offset = p.utf8ByteSize)
    (hnone : Heading.find? 0 (Text.lines s.toList) = none) :
    Behind p.utf8ByteSize heading.name (parse s) (parse (p ++ s)) := by
  have hdiagnostics (fs : List Finding) :
      (fs.map (Finding.shift p.utf8ByteSize)).map Finding.diagnostic =
        fs.map fun f => f.diagnostic.shift p.utf8ByteSize := by
    rw [List.map_map]
    exact congrArg (List.map · fs) (funext (Finding.diagnostic_shift _))
  rw [parse_append_eq hfound hoffset hnone]
  cases parse s with
  | error faults => exact hdiagnostics faults
  | ok m => exact ⟨rfl, rfl, rfl, rfl, hdiagnostics m.remarks⟩

/-- Behind a comment and a heading there is a model with a remark. -/
theorem parse_append_factor :
    Heading.find? 0 (Text.lines ("# ü\n=== m ===\n" ++ "f =~ NA*x + ü").toList) =
        some { name := some "m", body := "f =~ NA*x + ü".toList, offset := 15 } ∧
      "# ü\n=== m ===\n".utf8ByteSize = 15 ∧
      Heading.find? 0 (Text.lines "f =~ NA*x + ü".toList) = none ∧
      Behind 15 (some "m") (parse "f =~ NA*x + ü")
        (parse ("# ü\n=== m ===\n" ++ "f =~ NA*x + ü")) := by
  have hfound : Heading.find? 0 (Text.lines ("# ü\n=== m ===\n" ++ "f =~ NA*x + ü").toList) =
      some { name := some "m", body := "f =~ NA*x + ü".toList, offset := 15 } := by decide +kernel
  have hoffset : "# ü\n=== m ===\n".utf8ByteSize = 15 := by decide +kernel
  have hnone : Heading.find? 0 (Text.lines "f =~ NA*x + ü".toList) = none := by decide +kernel
  exact ⟨hfound, hoffset, hnone, hoffset ▸ parse_append hfound hoffset.symm hnone⟩

end Model

end StructuralModel
