import StructuralModel.Model.Build
import StructuralModel.Proofs.Statement.Clause
import StructuralModel.Proofs.Statement.Compact

/-!
# Reading a model by its clauses

A model text is read iff its body falls into statements, at least one, each of them makes a clause,
and every label that is bounded is one of the rows that the clauses add (`parse_eq_ok_iff`). What is
read is, places and remarks aside, the model of these clauses (`Model.ofClauses`).

* `foldl_update`: the bounds of a row are the last ones that the clauses set;
* `foldl_settle`: a row is computed iff some clause defines its label.
-/

namespace StructuralModel

/-- A table without the places where its rows were written. -/
def Table.unplaced (t : Table) : Table :=
  ⟨t.rows.map Relation.unplaced⟩

/-- A model without places and remarks. -/
def Model.unplaced (m : Model) : Model :=
  { m with table := m.table.unplaced, remarks := [] }

theorem Table.hasLabel_unplaced (t : Table) (label : String) :
    t.unplaced.hasLabel label = t.hasLabel label := by
  rw [hasLabel, hasLabel, unplaced, List.any_map]
  rfl

theorem Clause.known_unplaced {t : Table} {c : Clause} : c.Known t.unplaced ↔ c.Known t := by
  cases c with
  | bound => rw [Known, Known, Table.hasLabel_unplaced]
  | _ => exact Iff.rfl

namespace Model

/-- The row of a parameter when all bounds are set and all computed rows are marked. -/
def settled (clauses : List Clause) (r : Relation) : Relation :=
  clauses.foldl (fun r c => c.settle r) (clauses.foldl (fun r c => c.update r) r)

/-- The model that clauses describe. -/
def ofClauses (clauses : List Clause) : Model where
  table := ⟨(clauses.flatMap Clause.rows).map (settled clauses)⟩
  algebra := clauses.foldl Clause.define (clauses.foldl Clause.declare {})
  blocks := clauses.filterMap Clause.block?

end Model

/-! ## What clauses do to a row -/

namespace Clause

/-- The value that a clause bounds the parameter of a row by. -/
def boundOn? (side : Bound) (r : Relation) : Clause → Option String
  | bound label side' value => if side' = side ∧ r.hasLabel label then some value else none
  | _ => none

/-- Whether a clause defines the parameter of a row. -/
def defines (r : Relation) : Clause → Bool
  | definition d => r.hasLabel d.name
  | _ => false

theorem update_eq (c : Clause) (r : Relation) :
    c.update r = { r with
      lower := (c.boundOn? .lower r).or r.lower, upper := (c.boundOn? .upper r).or r.upper } := by
  cases c with
  | bound label side value =>
    rw [update, boundOn?, boundOn?]
    cases r.hasLabel label <;> cases side <;> rfl
  | _ => rfl

theorem settle_eq (c : Clause) (r : Relation) :
    c.settle r = { r with free := r.free && !c.defines r } := by
  cases c with
  | definition d =>
    rw [settle, defines]
    cases r.hasLabel d.name
    · simp
    · simp [Relation.markComputed]
  | _ => simp [settle, defines]

/-- The bounds of a row are the last ones that the clauses set. -/
theorem foldl_update (clauses : List Clause) (r : Relation) :
    clauses.foldl (fun r c => c.update r) r = { r with
      lower := (clauses.reverse.findSome? (boundOn? .lower r)).or r.lower
      upper := (clauses.reverse.findSome? (boundOn? .upper r)).or r.upper } := by
  induction clauses generalizing r with
  | nil => rfl
  | cons c clauses ih =>
    -- Bounds do not change which clauses are about the row.
    have same (side : Bound) : boundOn? side (c.update r) = boundOn? side r := by
      rw [update_eq]
      rfl
    rw [List.foldl_cons, ih, same, same, List.reverse_cons, List.findSome?_append,
      List.findSome?_append, List.findSome?_singleton, List.findSome?_singleton, update_eq,
      Option.or_assoc, Option.or_assoc]

/-- A row is computed iff it was so before or some clause defines its label. -/
theorem foldl_settle (clauses : List Clause) (r : Relation) :
    clauses.foldl (fun r c => c.settle r) r =
      { r with free := r.free && !clauses.any (defines r) } := by
  induction clauses generalizing r with
  | nil => simp
  | cons c clauses ih =>
    have same : defines (c.settle r) = defines r := by
      rw [settle_eq]
      rfl
    rw [List.foldl_cons, ih, same, settle_eq, List.any_cons]
    simp [Bool.and_assoc]

end Clause

namespace Model

/-- The row of a parameter, field by field. -/
theorem settled_eq (clauses : List Clause) (r : Relation) :
    settled clauses r = { r with
      lower := (clauses.reverse.findSome? (Clause.boundOn? .lower r)).or r.lower
      upper := (clauses.reverse.findSome? (Clause.boundOn? .upper r)).or r.upper
      free := r.free && !clauses.any (Clause.defines r) } := by
  rw [settled, Clause.foldl_update, Clause.foldl_settle]
  rfl

theorem settled_unplaced (clauses : List Clause) (r : Relation) :
    settled clauses r.unplaced = (settled clauses r).unplaced := by
  rw [settled_eq, settled_eq]
  rfl

end Model

/-! ## What the statements of a model do -/

/-- The forms of statements, each with the clause that it makes. -/
theorem Form.exists_makes {s : Statement} {c : Clause} (h : s.clause? = some c) :
    ∃ form, s.form? = some form ∧ form.Makes s c := by
  obtain ⟨-, form, hform, hc⟩ := Clause.ofText?_eq_some_iff.1 h
  exact ⟨form, hform, makes_of_says hc⟩

namespace Model

variable {statements : List Statement} {clauses : List Clause}

theorem formed_cons {s : Statement} {form : Form} (h : s.form? = some form)
    (statements : List Statement) :
    formed (s :: statements) = (s, form) :: formed statements :=
  List.filterMap_cons_some (by rw [h]; rfl)

/-- What the forms of statements do in turn is what their clauses do. -/
theorem foldl_formed {α : Type} {f : α → Form → α} {g : α → Clause → α}
    (hfg : ∀ s form c, Form.Makes form s c → ∀ a, f a form = g a c)
    (h : statements.map Statement.clause? = clauses.map some) (a : α) :
    ((formed statements).map Prod.snd).foldl f a = clauses.foldl g a := by
  induction statements generalizing clauses a with
  | nil =>
    obtain rfl := List.map_eq_nil_iff.1 h.symm
    rfl
  | cons s statements ih =>
    obtain ⟨c, clauses, rfl, hc, hclauses⟩ := List.map_eq_cons_iff.1 h.symm
    obtain ⟨form, hform, hmakes⟩ := Form.exists_makes hc.symm
    rw [formed_cons hform, List.map_cons, List.foldl_cons, List.foldl_cons, hfg s form c hmakes,
      ih hclauses.symm]

/-- The rows that statements add are those of their clauses. -/
theorem relationTable_unplaced
    (h : statements.map Statement.clause? = clauses.map some) :
    (relationTable statements).unplaced = ⟨clauses.flatMap Clause.rows⟩ := by
  rw [Table.unplaced, relationTable]
  congr 1
  induction statements generalizing clauses with
  | nil =>
    obtain rfl := List.map_eq_nil_iff.1 h.symm
    rfl
  | cons s statements ih =>
    obtain ⟨c, clauses, rfl, hc, hclauses⟩ := List.map_eq_cons_iff.1 h.symm
    obtain ⟨form, hform, hmakes⟩ := Form.exists_makes hc.symm
    rw [formed_cons hform, List.flatMap_cons, List.map_append, ih hclauses.symm, hmakes.rows,
      List.flatMap_cons]

/-- The blocks of statements are those of their clauses. -/
theorem blocks_formed (h : statements.map Statement.clause? = clauses.map some) :
    ((formed statements).filterMap fun (s, form) => form.verbatim? s) =
      clauses.filterMap Clause.block? := by
  induction statements generalizing clauses with
  | nil =>
    obtain rfl := List.map_eq_nil_iff.1 h.symm
    rfl
  | cons s statements ih =>
    obtain ⟨c, clauses, rfl, hc, hclauses⟩ := List.map_eq_cons_iff.1 h.symm
    obtain ⟨form, hform, hmakes⟩ := Form.exists_makes hc.symm
    rw [formed_cons hform, List.filterMap_cons, List.filterMap_cons, ih hclauses.symm,
      ← hmakes.block]

/-- Changes of all rows, made in turn, are made row by row. -/
theorem foldl_map_rows (f : Clause → Relation → Relation) (clauses : List Clause) (t : Table) :
    clauses.foldl (fun t c => ⟨t.rows.map (f c)⟩) t =
      (⟨t.rows.map fun r => clauses.foldl (fun r c => f c r) r⟩ : Table) := by
  induction clauses generalizing t with
  | nil => simp
  | cons c clauses ih => rw [List.foldl_cons, ih, List.map_map]; rfl

/-- The model of well-formed statements is the model of their clauses. -/
theorem ofStatements_unplaced
    (h : statements.map Statement.clause? = clauses.map some) :
    (ofStatements statements).unplaced = ofClauses clauses := by
  have hbound := foldl_formed (f := Form.applyBound) (fun _ _ _ hm => hm.bound) h
  have hdefinition := foldl_formed (f := Form.applyDefinition) (fun _ _ _ hm => hm.definition) h
  have hdeclare := foldl_formed (f := Form.declare) (fun _ _ _ hm => hm.declare) h
  have hdefine := foldl_formed (f := Form.define) (fun _ _ _ hm => hm.define) h
  rw [unplaced, ofStatements, ofClauses]
  simp only
  rw [hbound, hdefinition, hdeclare, hdefine, blocks_formed h, foldl_map_rows, foldl_map_rows]
  have hrows : (relationTable statements).rows.map Relation.unplaced =
      clauses.flatMap Clause.rows := congrArg Table.rows (relationTable_unplaced h)
  rw [← hrows, Table.unplaced, List.map_map, List.map_map, List.map_map]
  congr 2
  refine List.map_congr_left fun r _ => ?_
  exact (settled_unplaced clauses r).symm

/-! ## What may be found on statements -/

/-- Findings that are all faults are none if there is no fault. -/
theorem any_filterMap_isFault {α : Type} {f : α → Option Finding} {l : List α}
    (hf : ∀ a x, f a = some x → x.isFault = true) :
    (l.filterMap f).any Finding.isFault = false ↔ ∀ a ∈ l, f a = none := by
  rw [List.any_eq_false]
  constructor
  · intro h a ha
    cases hfa : f a with
    | none => rfl
    | some x => exact absurd (hf a x hfa) (h x (List.mem_filterMap.2 ⟨a, ha, hfa⟩))
  · intro h x hx
    obtain ⟨a, ha, hfa⟩ := List.mem_filterMap.1 hx
    rw [h a ha] at hfa
    cases hfa

theorem mem_formed {s : Statement} {form : Form} :
    (s, form) ∈ formed statements ↔ s ∈ statements ∧ s.form? = some form := by
  rw [formed, List.mem_filterMap]
  constructor
  · rintro ⟨s', hs, hp⟩
    obtain ⟨form', hform, heq⟩ := Option.map_eq_some_iff.1 hp
    cases heq
    exact ⟨hs, hform⟩
  · rintro ⟨hs, hform⟩
    exact ⟨s, hs, by rw [hform]; rfl⟩

/-- Statements are without fault iff all of them have forms, and these forms have no fault. -/
theorem findings_faultless_iff :
    (findings statements).any Finding.isFault = false ↔
      ∀ s ∈ statements, ∃ form, s.form? = some form ∧
        form.Faultless (relationTable statements) s := by
  have hform : ∀ s x, Statement.formFault? s = some x → x.isFault = true := by
    intro s x h
    rw [Statement.formFault?] at h
    split at h <;> cases h
    rfl
  rw [findings]
  simp only [List.any_append, Bool.or_eq_false_iff, List.any_flatMap,
    any_filterMap_isFault hform, any_filterMap_isFault fun _ _ => Form.isFault_of_boundFault?,
    any_filterMap_isFault fun _ _ => Form.isFault_of_declarationFault?,
    any_filterMap_isFault fun _ _ => Form.isFault_of_definitionFault?]
  constructor
  · rintro ⟨⟨⟨⟨h₁, h₂⟩, h₃⟩, h₄⟩, h₅⟩ s hs
    cases hf : s.form? with
    | none =>
      have := h₁ s hs
      rw [Statement.formFault?, hf] at this
      cases this
    | some form =>
      have hmem : (s, form) ∈ formed statements := mem_formed.2 ⟨hs, hf⟩
      exact ⟨form, rfl, Bool.of_not_eq_true (List.any_eq_false.1 h₂ _ hmem), h₃ _ hmem,
        h₄ _ hmem, h₅ _ hmem⟩
  · intro h
    have all : ∀ p ∈ formed statements, p.2.Faultless (relationTable statements) p.1 := by
      rintro ⟨s, form⟩ hp
      obtain ⟨hs, hf⟩ := mem_formed.1 hp
      obtain ⟨form', hform, hfaultless⟩ := h s hs
      obtain rfl : form' = form := Option.some.inj (hform.symm.trans hf)
      exact hfaultless
    refine ⟨⟨⟨⟨fun s hs => ?_, ?_⟩, fun p hp => (all p hp).2.1⟩, fun p hp => (all p hp).2.2.1⟩,
      fun p hp => (all p hp).2.2.2⟩
    · obtain ⟨form, hform, -⟩ := h s hs
      rw [Statement.formFault?, hform]
    · exact List.any_eq_false.2 fun p hp => Bool.eq_false_iff.1 (all p hp).1

/-- Statements are valid and without fault iff all of them make clauses, and all labels that are
    bounded are known. -/
theorem exists_clauses_iff (hne : ∀ s ∈ statements, s.text ≠ []) :
    (Statement.validate statements = .ok () ∧
        (findings statements).any Finding.isFault = false) ↔
      ∃ clauses : List Clause, statements.map Statement.clause? = clauses.map some ∧
        ∀ c ∈ clauses, c.Known ⟨clauses.flatMap Clause.rows⟩ := by
  have hvalid : Statement.validate statements = .ok () ↔
      ∀ s ∈ statements, Statement.isValid s.text = true := by
    rw [Statement.validate]
    constructor
    · intro h s hs
      split at h
      case h_1 hnil =>
        exact (Statement.invalid?_eq_none_iff (hne s hs)).1 (List.filterMap_eq_nil_iff.1 hnil s hs)
      case h_2 => cases h
    · intro h
      rw [List.filterMap_eq_nil_iff.2 fun s hs =>
        (Statement.invalid?_eq_none_iff (hne s hs)).2 (h s hs)]
  -- What is known is asked of the rows with their places, what clauses add has none.
  rw [hvalid, findings_faultless_iff]
  constructor
  · rintro ⟨hvalid, hforms⟩
    have hsome : ∀ s ∈ statements, ∃ c, s.clause? = some c ∧
        c.Known (relationTable statements) := by
      intro s hs
      obtain ⟨form, hform, hfaultless⟩ := hforms s hs
      obtain ⟨c, hc, hknown⟩ := Form.faultless_iff.1 hfaultless
      exact ⟨c, Clause.ofText?_eq_some_iff.2 ⟨hvalid s hs, form, hform, hc⟩, hknown⟩
    have hmap : statements.map Statement.clause? =
        (statements.filterMap Statement.clause?).map some := by
      rw [List.map_filterMap_some_eq_filter_map_isSome, List.filter_eq_self.2]
      intro x hx
      obtain ⟨s, hs, rfl⟩ := List.mem_map.1 hx
      obtain ⟨c, hc, -⟩ := hsome s hs
      rw [hc]
      rfl
    refine ⟨_, hmap, fun c hc => ?_⟩
    obtain ⟨s, hs, hsc⟩ := List.mem_filterMap.1 hc
    obtain ⟨c', hc', hknown⟩ := hsome s hs
    obtain rfl : c' = c := Option.some.inj (hc'.symm.trans hsc)
    rw [← relationTable_unplaced hmap, Clause.known_unplaced]
    exact hknown
  · rintro ⟨clauses, hmap, hknown⟩
    have hsome : ∀ s ∈ statements, ∃ c ∈ clauses, s.clause? = some c := by
      intro s hs
      have : s.clause? ∈ clauses.map some := hmap ▸ List.mem_map.2 ⟨s, hs, rfl⟩
      obtain ⟨c, hc, heq⟩ := List.mem_map.1 this
      exact ⟨c, hc, heq.symm⟩
    refine ⟨fun s hs => ?_, fun s hs => ?_⟩
    · obtain ⟨c, -, hc⟩ := hsome s hs
      exact (Clause.ofText?_eq_some_iff.1 hc).1
    · obtain ⟨c, hmem, hc⟩ := hsome s hs
      obtain ⟨-, form, hform, hmakes⟩ := Clause.ofText?_eq_some_iff.1 hc
      refine ⟨form, hform, Form.faultless_iff.2 ⟨c, hmakes, ?_⟩⟩
      rw [← Clause.known_unplaced, relationTable_unplaced hmap]
      exact hknown c hmem

/-- What becomes of the statements of a body at `body`, under a heading with the name `name`. -/
def ofBody (name : Option String) (body : Span) (statements : List Statement) :
    Except (List Finding) Model :=
  if statements.isEmpty then .error [.noStatements body]
  else (Statement.validate statements).bind fun _ =>
    (build statements).map fun m => { m with name }

/-- A model text is read by finding its statements first. -/
theorem parse_eq (source : String) :
    parse source =
      ((Statement.ofSource (Heading.ofSource source.toList).offset
          (Heading.ofSource source.toList).body).mapError ([·])).bind
        (ofBody (Heading.ofSource source.toList).name
          (.ofBounds (Heading.ofSource source.toList).offset (Text.byteSize source.toList))) := by
  rw [parse]
  cases Statement.ofSource (Heading.ofSource source.toList).offset
    (Heading.ofSource source.toList).body with
  | error => rfl
  | ok statements =>
    cases statements with
    | nil => rfl
    | cons s rest =>
      refine congrArg (Statement.validate (s :: rest)).bind (funext fun _ => ?_)
      cases build (s :: rest) <;> rfl

/-- A model is made of the statements of a body iff there are some and each step succeeds. -/
theorem ofBody_eq_ok_iff {name : Option String} {body : Span} {m : Model} :
    ofBody name body statements = .ok m ↔
      statements ≠ [] ∧ Statement.validate statements = .ok () ∧
        (findings statements).any Finding.isFault = false ∧
        m = { ofStatements statements with name } := by
  rw [ofBody, build]
  constructor
  · intro h
    split at h
    case isTrue => cases h
    case isFalse hne =>
      cases hv : Statement.validate statements with
      | error =>
        rw [hv] at h
        cases h
      | ok =>
        rw [hv] at h
        split at h
        case isTrue => cases h
        case isFalse hfault =>
          refine ⟨fun hnil => hne (List.isEmpty_iff.2 hnil), rfl, Bool.of_not_eq_true hfault, ?_⟩
          exact (Except.ok.inj h).symm
  · rintro ⟨hne, hv, hfault, rfl⟩
    rw [if_neg (mt List.isEmpty_iff.1 hne), hv, hfault]
    rfl

/-- A model text is read iff each step succeeds. -/
theorem parse_eq_ok_iff_steps {source : String} {m : Model} :
    parse source = .ok m ↔
      ∃ statements,
        Statement.ofSource (Heading.ofSource source.toList).offset
          (Heading.ofSource source.toList).body = .ok statements ∧
        statements ≠ [] ∧ Statement.validate statements = .ok () ∧
        (findings statements).any Finding.isFault = false ∧
        m = { ofStatements statements with name := (Heading.ofSource source.toList).name } := by
  rw [parse_eq]
  cases Statement.ofSource (Heading.ofSource source.toList).offset
    (Heading.ofSource source.toList).body with
  | error =>
    constructor
    · intro h
      cases h
    · rintro ⟨statements, h, -⟩
      cases h
  | ok statements =>
    refine ofBody_eq_ok_iff.trans ⟨fun h => ⟨statements, rfl, h⟩, ?_⟩
    rintro ⟨_, ⟨⟩, h⟩
    exact h

/-- A model text is read iff its body falls into statements, at least one, that make clauses, and
    every label that is bounded is known; what is read is the model of these clauses. -/
theorem parse_eq_ok_iff {source : String} {n : Model} :
    (∃ m, parse source = .ok m ∧ m.unplaced = n) ↔
      ∃ (statements : List Statement) (clauses : List Clause),
        Statement.ofSource (Heading.ofSource source.toList).offset
          (Heading.ofSource source.toList).body = .ok statements ∧
        clauses ≠ [] ∧ statements.map Statement.clause? = clauses.map some ∧
        (∀ c ∈ clauses, c.Known ⟨clauses.flatMap Clause.rows⟩) ∧
        n = { ofClauses clauses with name := (Heading.ofSource source.toList).name } := by
  have hnil {statements : List Statement} {clauses : List Clause}
      (h : statements.map Statement.clause? = clauses.map some) :
      statements = [] ↔ clauses = [] := by
    have := congrArg List.length h
    rw [List.length_map, List.length_map] at this
    rw [← List.length_eq_zero_iff, this, List.length_eq_zero_iff]
  have hunplaced {statements : List Statement} {clauses : List Clause} (name : Option String)
      (h : statements.map Statement.clause? = clauses.map some) :
      ({ ofStatements statements with name } : Model).unplaced =
        { ofClauses clauses with name } := by
    rw [← ofStatements_unplaced h]
    rfl
  constructor
  · rintro ⟨m, hm, rfl⟩
    obtain ⟨statements, hs, hne, hvalid, hfault, rfl⟩ := parse_eq_ok_iff_steps.1 hm
    have htext := fun s h => ((compact_of_ofSource hs).1 s h).1
    obtain ⟨clauses, hmap, hknown⟩ := (exists_clauses_iff htext).1 ⟨hvalid, hfault⟩
    exact ⟨statements, clauses, hs, fun h => hne ((hnil hmap).2 h), hmap, hknown,
      hunplaced _ hmap⟩
  · rintro ⟨statements, clauses, hs, hne, hmap, hknown, rfl⟩
    have htext := fun s h => ((compact_of_ofSource hs).1 s h).1
    obtain ⟨hvalid, hfault⟩ := (exists_clauses_iff htext).2 ⟨clauses, hmap, hknown⟩
    exact ⟨_, parse_eq_ok_iff_steps.2
      ⟨statements, hs, fun h => hne ((hnil hmap).1 h), hvalid, hfault, rfl⟩, hunplaced _ hmap⟩

end Model

end StructuralModel
