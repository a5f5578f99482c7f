import Mathlib.Data.List.Basic
import StructuralModel.Proofs.Appearance
import StructuralModel.Proofs.Model.Reading

/-!
# The clauses of a model

A model can be told by clauses again: one for each row, one for each bound of a label, one for each
declared and each defined parameter, and one for each block (`Model.clauses`). The model of these
clauses is the model one started with if it is *coherent* (`Model.Coherent`): rows with one label
have the same bounds, rows without label have none, and what is not free is what a definition
computes.

* `coherent_ofClauses`: the model of clauses is coherent;
* `ofClauses_clauses`: a coherent model is the model of its clauses.
-/

namespace StructuralModel

/-- The bound of the parameter on a side. -/
def Relation.bound? (r : Relation) : Bound → Option String
  | .lower => r.lower
  | .upper => r.upper

/-- Whether a clause adds rows. -/
def Clause.isRelations : Clause → Bool
  | relations _ => true
  | _ => false

/-- The clauses that set the bounds of a label: those of the first row that has it. -/
def Table.boundClauses (t : Table) (label : String) : List Clause :=
  match t.rows.find? (Relation.hasLabel label) with
  | none => []
  | some r => [Bound.lower, Bound.upper].filterMap fun side =>
      (r.bound? side).map (Clause.bound label side)

namespace Model

/-- The clauses of a model. -/
def clauses (m : Model) : List Clause :=
  (m.table.rows.map fun r => .relations [r.bare]) ++ m.table.labels.flatMap m.table.boundClauses ++
    (m.algebra.parameters.map fun p => .declaration p.name) ++
    m.algebra.definitions.map .definition ++ m.blocks.map .block

/-- Bounds belong to labels, and what is not free is what a definition computes. -/
structure Coherent (m : Model) : Prop where
  bounds_eq : ∀ r ∈ m.table.rows, ∀ r' ∈ m.table.rows, r.label? = r'.label? →
    ∀ side, r.bound? side = r'.bound? side
  unbounded : ∀ r ∈ m.table.rows, r.label? = none → ∀ side, r.bound? side = none
  free : ∀ r ∈ m.table.rows, r.free = !m.algebra.definitions.any fun d => r.hasLabel d.name
  nodup : (m.algebra.parameters.map Parameter.name).Nodup
  declared : ∀ p ∈ m.algebra.parameters,
    p.free = !m.algebra.definitions.any fun d => p.name == d.name

end Model

/-! ## Bounds -/

theorem Relation.hasLabel_iff {r : Relation} {label : String} :
    r.hasLabel label = true ↔ r.label? = some label := by
  rw [hasLabel, beq_iff_eq]

theorem Table.mem_labels {t : Table} {label : String} :
    label ∈ t.labels ↔ ∃ r ∈ t.rows, r.label? = some label := by
  rw [labels, List.mem_eraseDups, List.mem_filterMap]

theorem Table.mem_boundClauses {t : Table} {label : String} {c : Clause} :
    c ∈ t.boundClauses label ↔ ∃ r side value, t.rows.find? (Relation.hasLabel label) = some r ∧
      r.bound? side = some value ∧ c = .bound label side value := by
  rw [boundClauses]
  cases t.rows.find? (Relation.hasLabel label) with
  | none => simp
  | some r =>
    simp only [List.mem_filterMap, Option.map_eq_some_iff]
    constructor
    · rintro ⟨side, -, value, hvalue, rfl⟩
      exact ⟨r, side, value, rfl, hvalue, rfl⟩
    · rintro ⟨r', side, value, hr, hvalue, rfl⟩
      obtain rfl := Option.some.inj hr
      exact ⟨side, by cases side <;> simp, value, hvalue, rfl⟩

/-- The bound that is found if it is the only one that may be found. -/
theorem findSome?_eq {α β : Type} {f : α → Option β} {l : List α} {o : Option β}
    (hall : ∀ a ∈ l, ∀ b, f a = some b → o = some b)
    (hex : ∀ b, o = some b → ∃ a ∈ l, f a = some b) : l.findSome? f = o := by
  cases h : l.findSome? f with
  | some b =>
    obtain ⟨a, ha, hfa⟩ := List.exists_of_findSome?_eq_some h
    exact (hall a ha b hfa).symm
  | none =>
    cases o with
    | none => rfl
    | some b =>
      obtain ⟨a, ha, hfa⟩ := hex b rfl
      rw [List.findSome?_eq_none_iff.1 h a ha] at hfa
      cases hfa

/-- Places do not matter to rows without them. -/
theorem Table.map_bare_unplaced (t : Table) :
    t.unplaced.rows.map Relation.bare = t.rows.map Relation.bare :=
  List.map_map

namespace Model

variable {m : Model}

theorem mem_clauses {c : Clause} : c ∈ m.clauses ↔
    (∃ r ∈ m.table.rows, c = .relations [r.bare]) ∨
    (∃ label ∈ m.table.labels, c ∈ m.table.boundClauses label) ∨
    (∃ p ∈ m.algebra.parameters, c = .declaration p.name) ∨
    (∃ d ∈ m.algebra.definitions, c = .definition d) ∨
    ∃ text ∈ m.blocks, c = .block text := by
  simp only [clauses, List.mem_append, List.mem_map, List.mem_flatMap, or_assoc, eq_comm]

/-- The clauses of a model are its rows and then clauses that add none. -/
theorem exists_clauses_append (m : Model) :
    ∃ others, m.clauses = (m.table.rows.map fun r => .relations [r.bare]) ++ others ∧
      ∀ c ∈ others, c.isRelations = false := by
  refine ⟨_, by rw [clauses, List.append_assoc, List.append_assoc, List.append_assoc], ?_⟩
  intro c hc
  rcases List.mem_append.1 hc with hc | hc
  · obtain ⟨label, -, hbound⟩ := List.mem_flatMap.1 hc
    obtain ⟨r, side, value, -, -, rfl⟩ := Table.mem_boundClauses.1 hbound
    rfl
  · rcases List.mem_append.1 hc with hc | hc
    · obtain ⟨p, -, rfl⟩ := List.mem_map.1 hc
      rfl
    · rcases List.mem_append.1 hc with hc | hc
      · obtain ⟨d, -, rfl⟩ := List.mem_map.1 hc
        rfl
      · obtain ⟨text, -, rfl⟩ := List.mem_map.1 hc
        rfl

/-- The clauses of a model that add rows are its rows. -/
theorem exists_row_of_isRelations {c : Clause} (hc : c ∈ m.clauses) (h : c.isRelations = true) :
    ∃ r ∈ m.table.rows, c = .relations [r.bare] := by
  obtain ⟨others, hclauses, hothers⟩ := m.exists_clauses_append
  rw [hclauses, List.mem_append] at hc
  rcases hc with hc | hc
  · obtain ⟨r, hr, rfl⟩ := List.mem_map.1 hc
    exact ⟨r, hr, rfl⟩
  · rw [hothers c hc] at h
    cases h

/-- The bounds among the clauses of a model are those of the first rows with their labels. -/
theorem bound_mem_clauses {label value : String} {side : Bound} :
    Clause.bound label side value ∈ m.clauses ↔
      ∃ r, m.table.rows.find? (Relation.hasLabel label) = some r ∧ r.bound? side = some value := by
  rw [mem_clauses]
  constructor
  · rintro (⟨r, -, h⟩ | ⟨label', -, h⟩ | ⟨p, -, h⟩ | ⟨d, -, h⟩ | ⟨text, -, h⟩)
    · cases h
    · obtain ⟨r, side', value', hr, hvalue, heq⟩ := Table.mem_boundClauses.1 h
      cases heq
      exact ⟨r, hr, hvalue⟩
    · cases h
    · cases h
    · cases h
  · rintro ⟨r, hr, hvalue⟩
    refine .inr (.inl ⟨label, Table.mem_labels.2 ⟨r, List.mem_of_find?_eq_some hr, ?_⟩,
      Table.mem_boundClauses.2 ⟨r, side, value, hr, hvalue, rfl⟩⟩)
    exact Relation.hasLabel_iff.1 (List.find?_some hr)

/-- In a coherent model the first row with a label stands for all of them. -/
theorem Coherent.exists_first (hm : m.Coherent) {r : Relation} (hr : r ∈ m.table.rows)
    {label : String} (hlabel : r.label? = some label) (side : Bound) :
    ∃ first, m.table.rows.find? (Relation.hasLabel label) = some first ∧
      first.bound? side = r.bound? side := by
  have hsome : (m.table.rows.find? (Relation.hasLabel label)).isSome = true :=
    List.find?_isSome.2 ⟨r, hr, Relation.hasLabel_iff.2 hlabel⟩
  obtain ⟨first, hfind⟩ := Option.isSome_iff_exists.1 hsome
  refine ⟨first, hfind, hm.bounds_eq first (List.mem_of_find?_eq_some hfind) r hr ?_ side⟩
  rw [hlabel, ← Relation.hasLabel_iff]
  exact List.find?_some hfind

/-- The clauses of a coherent model give its rows back their bounds. -/
theorem findSome?_boundOn? (hm : m.Coherent) {r : Relation} (hr : r ∈ m.table.rows)
    (side : Bound) :
    m.clauses.reverse.findSome? (Clause.boundOn? side r) = r.bound? side := by
  -- A clause that bounds the row says the row's bound, and some clause does if there is one.
  refine findSome?_eq (fun c hc value hvalue => ?_) fun value hvalue => ?_
  · rw [List.mem_reverse] at hc
    cases c with
    | bound label side' value' =>
      rw [Clause.boundOn?] at hvalue
      split at hvalue
      case isFalse => cases hvalue
      case isTrue h =>
        obtain ⟨rfl, hlabel⟩ := h
        cases hvalue
        obtain ⟨first, hfind, hbound⟩ := hm.exists_first hr (Relation.hasLabel_iff.1 hlabel) side'
        obtain ⟨r', hr', hvalue⟩ := bound_mem_clauses.1 hc
        obtain rfl : first = r' := Option.some.inj (hfind.symm.trans hr')
        rw [← hbound, hvalue]
    | _ => cases hvalue
  · cases hlabel : r.label? with
    | none =>
      rw [hm.unbounded r hr hlabel side] at hvalue
      cases hvalue
    | some label =>
      obtain ⟨first, hfind, hbound⟩ := hm.exists_first hr hlabel side
      refine ⟨.bound label side value, ?_, ?_⟩
      · rw [List.mem_reverse, bound_mem_clauses]
        exact ⟨first, hfind, hbound.trans hvalue⟩
      · rw [Clause.boundOn?, if_pos ⟨rfl, Relation.hasLabel_iff.2 hlabel⟩]

end Model

/-! ## Declared and defined parameters -/

namespace Clause

/-- The name that a clause declares. -/
def declared? : Clause → Option String
  | declaration name => some name
  | _ => none

/-- The definition that a clause makes. -/
def definition? : Clause → Option Definition
  | definition d => some d
  | _ => none

theorem foldl_declare (clauses : List Clause) (a : Algebra) :
    clauses.foldl declare a =
      (clauses.filterMap declared?).foldl (fun a name => a.declare name) a := by
  induction clauses generalizing a with
  | nil => rfl
  | cons c clauses ih => cases c <;> exact ih _

theorem foldl_define (clauses : List Clause) (a : Algebra) :
    clauses.foldl define a = (clauses.filterMap definition?).foldl (fun a d => a.define d) a := by
  induction clauses generalizing a with
  | nil => rfl
  | cons c clauses ih => cases c <;> exact ih _

theorem any_defines (clauses : List Clause) (r : Relation) :
    clauses.any (defines r) =
      (clauses.filterMap definition?).any fun d => r.hasLabel d.name := by
  induction clauses with
  | nil => rfl
  | cons c clauses ih =>
    rw [List.any_cons, ih]
    cases c <;> rfl

end Clause

namespace Algebra

/-- Declared parameters are free, and each name is declared once. -/
structure Fresh (a : Algebra) : Prop where
  nodup : (a.parameters.map Parameter.name).Nodup
  free : ∀ p ∈ a.parameters, p.free = true
  undefined : a.definitions = []

theorem fresh_empty : Fresh {} :=
  ⟨by simp, fun _ h => (by cases h), rfl⟩

theorem Fresh.declare {a : Algebra} (h : a.Fresh) (name : String) : (a.declare name).Fresh := by
  rw [Algebra.declare]
  split
  case isTrue => exact h
  case isFalse hname =>
    refine ⟨?_, ?_, h.undefined⟩
    · rw [List.map_append, List.nodup_append]
      refine ⟨h.nodup, by simp, fun x hx y hy heq => hname ?_⟩
      obtain rfl : y = name := by simpa using hy
      obtain ⟨p, hp, hpx⟩ := List.mem_map.1 hx
      exact List.any_eq_true.2 ⟨p, hp, beq_iff_eq.2 (hpx.trans heq)⟩
    · intro p hp
      rcases List.mem_append.1 hp with hp | hp
      · exact h.free p hp
      · obtain rfl := List.mem_singleton.1 hp
        rfl

theorem Fresh.foldl_declare {a : Algebra} (h : a.Fresh) (names : List String) :
    (names.foldl (fun a name => a.declare name) a).Fresh := by
  induction names generalizing a with
  | nil => exact h
  | cons name names ih => exact ih (h.declare name)

/-- Names are declared once, in the order in which they are given first. -/
theorem foldl_declare_eq (names : List String) (a : Algebra) :
    names.foldl (fun a name => a.declare name) a = { a with
      parameters := a.parameters ++
        (names.filter fun name => !a.parameters.any (·.name == name)).eraseDups.map
          fun name => { name } } := by
  induction names generalizing a with
  | nil => simp
  | cons name names ih =>
    rw [List.foldl_cons, ih, declare, List.filter_cons]
    cases hname : a.parameters.any (·.name == name) with
    | true => simp
    | false =>
      -- From now on the name is declared, so its repetitions are passed over.
      have hrest : (names.filter fun other =>
            !(a.parameters ++ [({ name } : Parameter)]).any (·.name == other)) =
          (names.filter fun other => !a.parameters.any (·.name == other)).filter
            fun other => !other == name := by
        rw [List.filter_filter]
        refine List.filter_congr fun other _ => ?_
        simp [List.any_append, Bool.and_comm, Bool.beq_comm]
      simp only [Bool.false_eq_true, if_false, Bool.not_false, if_true, hrest,
        List.eraseDups_cons, List.map_cons, List.append_assoc, List.singleton_append]

/-- Names that differ are declared in turn. -/
theorem foldl_declare_of_nodup {names : List String} (h : names.Nodup) :
    names.foldl (fun (a : Algebra) name => a.declare name) {} =
      { parameters := names.map fun name => { name } } := by
  have hnew : names.filter (fun name => !([] : List Parameter).any (·.name == name)) = names :=
    List.filter_eq_self.2 fun _ _ => rfl
  rw [foldl_declare_eq, hnew, eraseDups_eq_self h]
  rfl

/-- Definitions are added in turn, and a parameter is computed iff it was so before or one of them
    defines it. -/
theorem foldl_define (definitions : List Definition) (a : Algebra) :
    definitions.foldl (fun a d => a.define d) a =
      { parameters := a.parameters.map fun p =>
          { p with free := p.free && !definitions.any fun d => p.name == d.name }
        definitions := a.definitions ++ definitions } := by
  induction definitions generalizing a with
  | nil => simp
  | cons d definitions ih =>
    rw [List.foldl_cons, ih, define, List.map_map]
    congr 1
    · refine List.map_congr_left fun p _ => ?_
      rw [Function.comp_apply]
      split
      case isTrue h => simp [h]
      case isFalse h => simp [h]
    · simp

end Algebra

namespace Model

variable {m : Model}

/-- The rows of a model of clauses are the ones that the clauses add, settled. -/
theorem exists_row_of_mem {clauses : List Clause} (h : ∀ c ∈ clauses, ∀ r ∈ c.rows, r.bare = r)
    {r : Relation} (hr : r ∈ (ofClauses clauses).table.rows) :
    r = settled clauses r.bare ∧ ∃ c ∈ clauses, r.bare ∈ c.rows := by
  obtain ⟨r₀, hr₀, rfl⟩ := List.mem_map.1 hr
  obtain ⟨c, hc, hcr⟩ := List.mem_flatMap.1 hr₀
  have hbare : (settled clauses r₀).bare = r₀ := by
    rw [settled_eq]
    exact h c hc r₀ hcr
  rw [hbare]
  exact ⟨rfl, c, hc, hcr⟩

/-- Apart from bounds, marks and places, the rows of a model of clauses are the ones that the
    clauses add. -/
theorem map_bare_ofClauses {clauses : List Clause} (h : ∀ c ∈ clauses, ∀ r ∈ c.rows, r.bare = r) :
    (ofClauses clauses).table.rows.map Relation.bare = clauses.flatMap Clause.rows := by
  have hbare : ∀ r ∈ clauses.flatMap Clause.rows, (settled clauses r).bare = r := by
    intro r hr
    obtain ⟨c, hc, hcr⟩ := List.mem_flatMap.1 hr
    rw [settled_eq]
    exact h c hc r hcr
  exact List.map_map.trans ((List.map_congr_left hbare).trans (List.map_id _))

/-- So are those of a model that differs from the model of clauses in places and the name only. -/
theorem map_bare_of_unplaced {clauses : List Clause} {name : Option String}
    (hm : m.unplaced = { ofClauses clauses with name }) :
    m.table.rows.map Relation.bare = (ofClauses clauses).table.rows.map Relation.bare := by
  rw [← Table.map_bare_unplaced]
  exact congrArg (fun m => m.table.rows.map Relation.bare) hm

/-- The model of clauses that add bare rows is coherent. -/
theorem coherent_ofClauses {clauses : List Clause}
    (h : ∀ c ∈ clauses, ∀ r ∈ c.rows, r.bare = r) : (ofClauses clauses).Coherent := by
  have hrow : ∀ r ∈ (ofClauses clauses).table.rows, ∃ r₀ : Relation, r₀.bare = r₀ ∧
      r = settled clauses r₀ := fun r hr => ⟨r.bare, rfl, (exists_row_of_mem h hr).1⟩
  have hlabel (r : Relation) : (settled clauses r).label? = r.label? := by rw [settled_eq]; rfl
  have hbound (r : Relation) (hr : r.bare = r) (side : Bound) : (settled clauses r).bound? side =
      clauses.reverse.findSome? (Clause.boundOn? side r) := by
    rw [settled_eq, ← hr]
    cases side <;> exact Option.or_none
  -- All declarations come before all definitions, so what is declared is free at first.
  have hfresh := Algebra.fresh_empty.foldl_declare (clauses.filterMap Clause.declared?)
  rw [← Clause.foldl_declare] at hfresh
  have halgebra : (ofClauses clauses).algebra =
      { parameters := (clauses.foldl Clause.declare {}).parameters.map fun p => { p with
          free := p.free && !(clauses.filterMap Clause.definition?).any fun d => p.name == d.name }
        definitions := clauses.filterMap Clause.definition? } := by
    rw [ofClauses, Clause.foldl_define, Algebra.foldl_define, hfresh.undefined, List.nil_append]
  refine ⟨fun r hr r' hr' hsame side => ?_, fun r hr hnone side => ?_, fun r hr => ?_, ?_, ?_⟩
  · obtain ⟨r₀, hbare, rfl⟩ := hrow r hr
    obtain ⟨r₀', hbare', rfl⟩ := hrow r' hr'
    rw [hlabel, hlabel] at hsame
    rw [hbound r₀ hbare, hbound r₀' hbare']
    congr 1
    funext c
    cases c with
    | bound => rw [Clause.boundOn?, Clause.boundOn?, Relation.hasLabel, Relation.hasLabel, hsame]
    | _ => rfl
  · obtain ⟨r₀, hbare, rfl⟩ := hrow r hr
    rw [hlabel] at hnone
    rw [hbound r₀ hbare, List.findSome?_eq_none_iff]
    intro c hc
    cases c with
    | bound => rw [Clause.boundOn?, if_neg]; simp [Relation.hasLabel, hnone]
    | _ => rfl
  · obtain ⟨r₀, hbare, rfl⟩ := hrow r hr
    rw [halgebra, settled_eq, ← Clause.any_defines, ← hbare]
    exact Bool.true_and _
  · rw [halgebra, List.map_map]
    exact hfresh.nodup
  · rw [halgebra]
    intro p hp
    obtain ⟨p₀, hp₀, rfl⟩ := List.mem_map.1 hp
    simp [hfresh.free p₀ hp₀]

/-! ## The model of its clauses -/

theorem filterMap_boundClauses {α : Type} {f : Clause → Option α}
    (hf : ∀ label side value, f (.bound label side value) = none) (t : Table) :
    (t.labels.flatMap t.boundClauses).filterMap f = [] := by
  refine List.filterMap_eq_nil_iff.2 fun c hc => ?_
  obtain ⟨label, -, hc⟩ := List.mem_flatMap.1 hc
  obtain ⟨r, side, value, -, -, rfl⟩ := Table.mem_boundClauses.1 hc
  exact hf label side value

theorem rows_clauses (m : Model) :
    m.clauses.flatMap Clause.rows = m.table.rows.map Relation.bare := by
  have hbound : (m.table.labels.flatMap m.table.boundClauses).flatMap Clause.rows = [] := by
    refine List.flatMap_eq_nil_iff.2 fun c hc => ?_
    obtain ⟨label, -, hc⟩ := List.mem_flatMap.1 hc
    obtain ⟨r, side, value, -, -, rfl⟩ := Table.mem_boundClauses.1 hc
    rfl
  have hrows : (m.table.rows.map fun r => Clause.relations [r.bare]).flatMap Clause.rows =
      m.table.rows.map Relation.bare := by
    induction m.table.rows with
    | nil => rfl
    | cons r rows ih => rw [List.map_cons, List.flatMap_cons, ih, List.map_cons]; rfl
  simp only [clauses, List.flatMap_append, hbound, hrows, List.flatMap_map]
  simp [Clause.rows]

theorem filterMap_clauses (m : Model) :
    m.clauses.filterMap Clause.declared? = m.algebra.parameters.map Parameter.name ∧
      m.clauses.filterMap Clause.definition? = m.algebra.definitions ∧
      m.clauses.filterMap Clause.block? = m.blocks := by
  simp only [clauses, List.filterMap_append, List.filterMap_map]
  rw [filterMap_boundClauses fun _ _ _ => rfl, filterMap_boundClauses fun _ _ _ => rfl,
    filterMap_boundClauses fun _ _ _ => rfl]
  refine ⟨?_, ?_, ?_⟩
  · simp only [Function.comp_def, Clause.declared?, List.filterMap_none, List.append_nil,
      List.filterMap_eq_map', List.nil_append]
  · simp only [Function.comp_def, Clause.definition?, List.filterMap_none, List.append_nil,
      List.filterMap_some, List.nil_append]
  · simp only [Function.comp_def, Clause.block?, List.filterMap_none, List.append_nil,
      List.filterMap_some, List.nil_append]

/-- A coherent model is the model of its clauses. -/
theorem ofClauses_clauses (hm : m.Coherent) :
    { ofClauses m.clauses with name := m.name } = m.unplaced := by
  obtain ⟨hdeclared, hdefinitions, hblocks⟩ := m.filterMap_clauses
  have htable : (ofClauses m.clauses).table = m.table.unplaced := by
    rw [ofClauses, rows_clauses, Table.unplaced, List.map_map]
    refine congrArg Table.mk (List.map_congr_left fun r hr => ?_)
    have hfree : r.free = !m.clauses.any (Clause.defines r.bare) := by
      rw [hm.free r hr, Clause.any_defines, hdefinitions]
      rfl
    have hlower := findSome?_boundOn? hm hr .lower
    have hupper := findSome?_boundOn? hm hr .upper
    rw [Function.comp_apply, settled_eq, ← hfree]
    -- Which clauses bound a row does not depend on its bounds.
    rw [show Clause.boundOn? .lower r.bare = Clause.boundOn? .lower r from rfl,
      show Clause.boundOn? .upper r.bare = Clause.boundOn? .upper r from rfl, hlower, hupper]
    simp [Relation.bare, Relation.unplaced, Relation.bound?]
  have halgebra : (ofClauses m.clauses).algebra = m.algebra := by
    rw [ofClauses, Clause.foldl_declare, hdeclared,
      Algebra.foldl_declare_of_nodup hm.nodup, Clause.foldl_define,
      hdefinitions, Algebra.foldl_define]
    have hparameters : m.algebra.parameters.map (fun p => ({
        name := p.name
        free := !m.algebra.definitions.any fun d => p.name == d.name } : Parameter)) =
          m.algebra.parameters := by
      refine (List.map_congr_left fun p hp => ?_).trans (List.map_id _)
      rw [← hm.declared p hp]
      rfl
    simp [Function.comp_def, hparameters]
  rw [unplaced, ← htable, ← halgebra]
  simp only [ofClauses, hblocks]

/-- Every label that the clauses of a model bound is the label of some row. -/
theorem known_of_mem_clauses {c : Clause} (hc : c ∈ m.clauses) :
    c.Known ⟨m.clauses.flatMap Clause.rows⟩ := by
  cases c with
  | bound label side value =>
    obtain ⟨r, hr, -⟩ := bound_mem_clauses.1 hc
    rw [rows_clauses]
    have hlabel : r.hasLabel label = true := List.find?_some hr
    exact List.any_eq_true.2
      ⟨r.bare, List.mem_map.2 ⟨r, List.mem_of_find?_eq_some hr, rfl⟩, hlabel⟩
  | _ => trivial

/-- The clauses of a model do not depend on places and remarks. -/
theorem clauses_unplaced (m : Model) : m.unplaced.clauses = m.clauses := by
  have hlabels : m.unplaced.table.labels = m.table.labels := by
    rw [Table.labels, Table.labels, unplaced, Table.unplaced, List.filterMap_map]
    rfl
  have hbound : m.unplaced.table.boundClauses = m.table.boundClauses := by
    funext label
    simp only [Table.boundClauses, unplaced, Table.unplaced, List.find?_map]
    rw [show Relation.hasLabel label ∘ Relation.unplaced = Relation.hasLabel label from rfl]
    cases m.table.rows.find? (Relation.hasLabel label) with
    | none => rfl
    | some r => congr
  rw [clauses, hlabels, hbound]
  simp only [clauses, unplaced, Table.unplaced, List.map_map]
  rfl

end Model

end StructuralModel
