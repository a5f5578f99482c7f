import StructuralModel.Proofs.Model.Completed
import StructuralModel.Proofs.Model.Written

/-!
# What a model owes to its source

A compiled model is *grounded* in the statements of its source (`Model.Grounded`): it is coherent,
its rows are sound, and whatever it has beside rows (bounds, declarations, definitions and blocks)
is there because some statement says so, with the very text that is written for it. This is how the
written form of a model is known to be readable, apart from the rows that completion turned around.

* `exists_grounded`: compiled models are grounded.
-/

namespace StructuralModel

open Text (outside splitOnce)

namespace Model

/-- What a model has beside its rows is what the clauses say. -/
structure From (m : Model) (clauses : List Clause) : Prop where
  bounds : ∀ r ∈ m.table.rows, ∀ label, r.label? = some label → ∀ side value,
    r.bound? side = some value → .bound label side value ∈ clauses
  declarations : ∀ p ∈ m.algebra.parameters, .declaration p.name ∈ clauses
  definitions : ∀ d ∈ m.algebra.definitions, .definition d ∈ clauses
  blocks : ∀ text ∈ m.blocks, .block text ∈ clauses

end Model

/-- The names that are given are declared, and no other ones. -/
theorem Algebra.mem_foldl_declare {names : List String} {name : String} :
    name ∈ (names.foldl (fun (a : Algebra) name => a.declare name) {}).parameters.map
        Parameter.name ↔ name ∈ names := by
  rw [foldl_declare_eq]
  simp [List.mem_eraseDups]

namespace Model

theorem from_ofClauses {clauses : List Clause} (h : ∀ c ∈ clauses, ∀ r ∈ c.rows, r.bare = r) :
    (ofClauses clauses).From clauses := by
  refine ⟨fun r hr label hlabel side value hvalue => ?_, fun p hp => ?_, fun d hd => ?_,
    fun text ht => ?_⟩
  -- The last clause that bounds the label is the one that is found.
  · obtain ⟨hsettled, -⟩ := exists_row_of_mem h hr
    have hfind : clauses.reverse.findSome? (Clause.boundOn? side r.bare) = some value := by
      rw [hsettled, settled_eq] at hvalue
      cases side <;> simpa [Relation.bound?, Relation.bare] using hvalue
    obtain ⟨c, hc, hcv⟩ := List.exists_of_findSome?_eq_some hfind
    cases c with
    | bound label' side' value' =>
      rw [Clause.boundOn?] at hcv
      split at hcv
      case isTrue hboth =>
        obtain ⟨rfl, hhas⟩ := hboth
        cases hcv
        obtain rfl : label' = label :=
          Option.some.inj ((Relation.hasLabel_iff.1 hhas).symm.trans hlabel)
        exact List.mem_reverse.1 hc
      case isFalse => cases hcv
    | _ => cases hcv
  · have hp : p ∈ (clauses.foldl Clause.define (clauses.foldl Clause.declare {})).parameters := hp
    rw [Clause.foldl_define, Algebra.foldl_define, Clause.foldl_declare] at hp
    obtain ⟨p₀, hp₀, rfl⟩ := List.mem_map.1 hp
    have hdeclared := Algebra.mem_foldl_declare.1 (List.mem_map_of_mem hp₀)
    obtain ⟨c, hc, hname⟩ := List.mem_filterMap.1 hdeclared
    cases c with
    | declaration name =>
      obtain rfl : name = p₀.name := Option.some.inj hname
      exact hc
    | _ => cases hname
  · have hd : d ∈ (clauses.foldl Clause.define (clauses.foldl Clause.declare {})).definitions := hd
    rw [Clause.foldl_define, Algebra.foldl_define, Clause.foldl_declare] at hd
    rcases List.mem_append.1 hd with hd | hd
    · rw [(Algebra.fresh_empty.foldl_declare _).undefined] at hd
      cases hd
    · obtain ⟨c, hc, hcd⟩ := List.mem_filterMap.1 hd
      cases c with
      | definition d' =>
        obtain rfl : d' = d := Option.some.inj hcd
        exact hc
      | _ => cases hcd
  · obtain ⟨c, hc, hct⟩ := List.mem_filterMap.1 ht
    cases c with
    | block text' =>
      obtain rfl : text' = text := Option.some.inj hct
      exact hc
    | _ => cases hct

variable {m : Model} {clauses : List Clause}

/-- Places and remarks are not from clauses. -/
theorem From.of_unplaced (h : m.unplaced.From clauses) : m.From clauses where
  bounds r hr label hlabel side value hvalue :=
    h.bounds r.unplaced (List.mem_map_of_mem hr) label hlabel side value
      (by cases side <;> exact hvalue)
  declarations := h.declarations
  definitions := h.definitions
  blocks := h.blocks

/-- The clauses of a model that add no rows are among those that it is from. -/
theorem From.mem_of_mem_clauses (h : m.From clauses) {c : Clause} (hc : c ∈ m.clauses)
    (hrows : c.isRelations = false) : c ∈ clauses := by
  rcases mem_clauses.1 hc with ⟨r, -, rfl⟩ | ⟨label, -, hbound⟩ | ⟨p, hp, rfl⟩ | ⟨d, hd, rfl⟩ |
    ⟨text, ht, rfl⟩
  · cases hrows
  · obtain ⟨r, side, value, hr, hvalue, rfl⟩ := Table.mem_boundClauses.1 hbound
    exact h.bounds r (List.mem_of_find?_eq_some hr) label
      (Relation.hasLabel_iff.1 (List.find?_some hr)) side value hvalue
  · exact h.declarations p hp
  · exact h.definitions d hd
  · exact h.blocks text ht

/-- Whether places and remarks are there does not matter to coherence. -/
theorem Coherent.of_unplaced (h : m.unplaced.Coherent) : m.Coherent where
  bounds_eq r hr r' hr' hlabel side := by
    have := h.bounds_eq r.unplaced (List.mem_map_of_mem hr) r'.unplaced (List.mem_map_of_mem hr')
      hlabel side
    cases side <;> exact this
  unbounded r hr hlabel side := by
    have := h.unbounded r.unplaced (List.mem_map_of_mem hr) hlabel side
    cases side <;> exact this
  free r hr := h.free r.unplaced (List.mem_map_of_mem hr)
  nodup := h.nodup
  declared := h.declared

/-- Clauses that add rows, or bound known labels, make a model that has clauses. -/
theorem clauses_ofClauses_ne_nil {clauses : List Clause} (hne : clauses ≠ [])
    (hrows : ∀ c ∈ clauses, c.isRelations = true → c.rows ≠ [])
    (hknown : ∀ c ∈ clauses, c.Known ⟨clauses.flatMap Clause.rows⟩) :
    (ofClauses clauses).clauses ≠ [] := by
  intro hnil
  obtain ⟨c, rest, rfl⟩ := List.exists_cons_of_ne_nil hne
  have hc : c ∈ c :: rest := List.mem_cons_self
  obtain ⟨hdeclared, hdefinitions, hblocks⟩ := (ofClauses (c :: rest)).filterMap_clauses
  have hnone := (ofClauses (c :: rest)).rows_clauses
  rw [hnil] at hdeclared hdefinitions hblocks hnone
  have hflat : (c :: rest).flatMap Clause.rows = [] :=
    List.map_eq_nil_iff.1 (List.map_eq_nil_iff.1 hnone.symm)
  cases c with
  | relations rows =>
    exact hrows _ hc rfl (List.flatMap_eq_nil_iff.1 hflat _ hc)
  | bound label side value =>
    have h := hknown _ hc
    rw [hflat] at h
    cases h
  | declaration name =>
    have hmem : name ∈ (ofClauses (.declaration name :: rest)).algebra.parameters.map
        Parameter.name := by
      rw [ofClauses, Clause.foldl_define, Algebra.foldl_define, Clause.foldl_declare, List.map_map]
      exact Algebra.mem_foldl_declare.2 List.mem_cons_self
    rw [← hdeclared] at hmem
    cases hmem
  | definition d =>
    have hmem : d ∈ (ofClauses (.definition d :: rest)).algebra.definitions := by
      rw [ofClauses, Clause.foldl_define, Algebra.foldl_define]
      exact List.mem_append_right _ List.mem_cons_self
    rw [← hdefinitions] at hmem
    cases hmem
  | block text => cases hblocks

/-- A model that is read is coherent, and all it has is from clauses that its statements make. -/
theorem exists_from_of_parse {source : String} (h : parse source = .ok m) :
    ∃ statements, Statement.ofSource (Heading.ofSource source.toList).offset
        (Heading.ofSource source.toList).body = .ok statements ∧
      m.name = (Heading.ofSource source.toList).name ∧ m.Coherent ∧ m.clauses ≠ [] ∧
      (∀ r ∈ m.table.rows, r.bare.Read) ∧ ∃ clauses, m.From clauses ∧
        ∀ c ∈ clauses, ∃ s ∈ statements, Clause.ofText? s.text = some c := by
  obtain ⟨statements, clauses, hs, hne, hclauses, hknown, hm⟩ :=
    parse_eq_ok_iff.1 ⟨m, h, rfl⟩
  have hmakes : ∀ c ∈ clauses, ∃ s ∈ statements, Clause.ofText? s.text = some c := by
    intro c hc
    have : some c ∈ statements.map Statement.clause? := hclauses ▸ List.mem_map_of_mem hc
    obtain ⟨s, hs, hsc⟩ := List.mem_map.1 this
    exact ⟨s, hs, hsc⟩
  have hread : ∀ c ∈ clauses, ∀ r ∈ c.rows, r.Read := by
    intro c hc r hr
    obtain ⟨s, hsmem, hsc⟩ := hmakes c hc
    exact Relation.read_of_mem_rows hsc ((compact_of_ofSource hs).1 s hsmem).2.balanced r hr
  have hbare := fun c hc r hr => (hread c hc r hr).bare
  have hrows : ∀ c ∈ clauses, c.isRelations = true → c.rows ≠ [] := by
    intro c hc hrel
    obtain ⟨s, -, hsc⟩ := hmakes c hc
    cases c with
    | relations rows => exact Relation.rows_ne_nil_of_ofText? hsc
    | _ => cases hrel
  have hcoherent : m.unplaced.Coherent := by
    rw [hm]
    obtain ⟨h₁, h₂, h₃, h₄, h₅⟩ := coherent_ofClauses hbare
    exact ⟨h₁, h₂, h₃, h₄, h₅⟩
  have hfrom : m.unplaced.From clauses := by
    rw [hm]
    obtain ⟨h₁, h₂, h₃, h₄⟩ := from_ofClauses hbare
    exact ⟨h₁, h₂, h₃, h₄⟩
  refine ⟨statements, hs, congrArg Model.name hm, hcoherent.of_unplaced, ?_, fun r hr => ?_,
    clauses, hfrom.of_unplaced, hmakes⟩
  · rw [← clauses_unplaced, hm]
    exact clauses_ofClauses_ne_nil hne hrows hknown
  · have hr : r.unplaced ∈ m.unplaced.table.rows := List.mem_map_of_mem hr
    rw [hm] at hr
    obtain ⟨-, c, hc, hcr⟩ := exists_row_of_mem hbare hr
    exact hread c hc _ hcr

end Model

/-! ## Completed models -/

namespace Table

variable {t t' : Table} {r : Relation}

/-- A row with a label is one of those that were read. -/
theorem Completes.mem_of_label (h : t.Completes t') (hr : r ∈ t'.rows) {label : String}
    (hlabel : r.label? = some label) : r ∈ t.rows := by
  obtain ⟨r₀, hr₀, rfl | ⟨-, rfl⟩⟩ := h r hr
  · rcases hr₀ with hr₀ | hr₀
    · exact hr₀
    · cases hr₀ <;> cases hlabel
  · cases hlabel

/-- A row without label has the bounds of a row without label that was read, or of an added one. -/
theorem Completes.exists_of_unlabelled (h : t.Completes t') (hr : r ∈ t'.rows)
    (hlabel : r.label? = none) :
    ∃ r₀, (r₀ ∈ t.rows ∨ t.Added r₀) ∧ r₀.label? = none ∧
      (∀ side, r.bound? side = r₀.bound? side) ∧ r.free = r₀.free := by
  obtain ⟨r₀, hr₀, rfl | ⟨hnone, rfl⟩⟩ := h r hr
  · exact ⟨r, hr₀, hlabel, fun _ => rfl, rfl⟩
  · exact ⟨r₀, hr₀, by rw [Relation.label?, hnone]; rfl, fun side => by cases side <;> rfl, rfl⟩

end Table

namespace Model

variable {m : Model} {o : Options}

/-- Completion leaves a model coherent. -/
theorem Coherent.compiled (h : m.Coherent) : (m.compiled o).toModel.Coherent := by
  have hcompletes := Table.completes_compiled o m
  have hunbounded : ∀ r ∈ (m.compiled o).table.rows, r.label? = none →
      ∀ side, r.bound? side = none := by
    intro r hr hlabel side
    obtain ⟨r₀, hr₀, hnone, hbound, -⟩ := hcompletes.exists_of_unlabelled hr hlabel
    rw [hbound]
    rcases hr₀ with hr₀ | hr₀
    · exact h.unbounded r₀ hr₀ hnone side
    · cases hr₀ <;> cases side <;> rfl
  refine ⟨fun r hr r' hr' hsame side => ?_, hunbounded, fun r hr => ?_, h.nodup, h.declared⟩
  · cases hlabel : r.label? with
    | some label =>
      exact h.bounds_eq r (hcompletes.mem_of_label hr hlabel) r'
        (hcompletes.mem_of_label hr' (hsame.symm.trans hlabel)) hsame side
    | none => rw [hunbounded r hr hlabel, hunbounded r' hr' (hsame.symm.trans hlabel)]
  -- A row with a label was there before; one without label is computed by no definition.
  · cases hlabel : r.label? with
    | some label => exact h.free r (hcompletes.mem_of_label hr hlabel)
    | none =>
      obtain ⟨r₀, hr₀, hnone, -, hfree⟩ := hcompletes.exists_of_unlabelled hr hlabel
      have hno {r : Relation} (hr : r.label? = none) :
          (!m.algebra.definitions.any fun d => r.hasLabel d.name) = true := by
        simp [Relation.hasLabel, hr]
      rw [hfree]
      refine Eq.trans ?_ (hno hlabel).symm
      rcases hr₀ with hr₀ | hr₀
      · exact (h.free r₀ hr₀).trans (hno hnone)
      · cases hr₀ <;> rfl

/-- Completion adds nothing beside rows. -/
theorem From.compiled {clauses : List Clause} (h : m.From clauses) :
    (m.compiled o).toModel.From clauses where
  bounds r hr label hlabel :=
    h.bounds r ((Table.completes_compiled o m).mem_of_label hr hlabel) label hlabel
  declarations := h.declarations
  definitions := h.definitions
  blocks := h.blocks

end Model

/-! ## Rows of completed tables -/

theorem isPart_intercept : IsPart intercept.toList :=
  ⟨by decide, by decide, List.all_eq_true.1 (by decide +kernel), by decide⟩

theorem isPart_scalingValue : IsPart Table.scalingValue.toList :=
  ⟨by decide, by decide, List.all_eq_true.1 (by decide +kernel), by decide⟩

namespace Relation

variable {r r' : Relation}

/-- Fixing a row keeps it sound. -/
theorem Sound.scales (h : r.Sound) (hscales : r.Scales r') : r'.Sound := by
  rcases hscales with rfl | ⟨-, rfl⟩
  · exact h
  · refine ⟨h.isEdge, h.lhs, h.rhs, fun m hm => ?_⟩
    obtain rfl := Option.some.inj hm
    exact ⟨isPart_scalingValue, rfl⟩

/-- A name without modifier is a clear term. -/
theorem clear_of_isName (h : isName nameMarks r.rhs.toList = true) (hmodifier : r.modifier = none) :
    r.Clear := by
  intro op hbefore
  rw [term, hmodifier, List.nil_append]
  exact splitOnce_symbol_eq_none (no_sign_of_isName h) (ne_define_of_mem_before hbefore)

/-- Fixing a row keeps its term clear. -/
theorem Clear.scales (h : r.Clear) (hscales : r.Scales r') : r'.Clear := by
  rcases hscales with rfl | ⟨hnone, rfl⟩
  · exact h
  · intro op hbefore
    have hterm := h op hbefore
    rw [term, hnone, List.nil_append] at hterm
    -- The value and the `*` behind it have no sign of an operator.
    have hvalue := splitOnce_symbol_append
      (rfl : Text.depth 0 (Table.scalingValue.toList ++ ['*']) = 0) (by decide)
      (ne_define_of_mem_before hbefore) r.rhs.toList
    rw [hterm, Option.map_none] at hvalue
    exact hvalue

theorem Scales.lhs_eq (h : r.Scales r') : r'.lhs = r.lhs := by
  rcases h with rfl | ⟨-, rfl⟩ <;> rfl

/-- The left side of a row that is read is not the mark of an intercept. -/
theorem Read.ne_intercept (h : r.Read) : r.lhs ≠ intercept := by
  intro heq
  obtain ⟨x, hx, hstart⟩ := h.start
  rw [heq] at hx
  obtain rfl : '1' = x := Option.some.inj hx
  revert hstart
  decide +kernel

/-- The right side of a clear row that is no loading has no `=~`. -/
theorem Clear.splitOnce_rhs (h : r.Clear) (hr : r.Sound) (hop : r.op ≠ .loading) :
    splitOnce Operator.loading.symbol.toList r.rhs.toList = none := by
  have hterm : splitOnce Operator.loading.symbol.toList r.term = none := by
    refine h .loading ?_
    cases hr' : r.op with
    | loading => exact absurd hr' hop
    | define => exact absurd hr' hr.isEdge
    | _ => decide
  rw [term] at hterm
  refine Text.splitOnce_eq_none_of_suffix (List.cons_ne_nil _ _) ?_ hterm
  cases hm : r.modifier with
  | none => rfl
  | some m =>
    exact ((hr.modifier m hm).1.balanced.append (by decide : Text.Balanced ['*'])).depth_eq

end Relation

namespace Table

variable {t t' : Table}

/-- Every name that a table of sound rows mentions is a part of a text. -/
theorem Mentions.isPart {name : String} (h : t.Mentions name) (ht : ∀ r ∈ t.rows, r.Sound) :
    IsPart name.toList := by
  obtain ⟨r, hr, -, rfl | ⟨rfl, -⟩⟩ := h
  · exact (ht r hr).lhs
  · exact (ht r hr).rhs

/-- If no left side is the mark of an intercept, no name that a table mentions is. -/
theorem Mentions.ne_intercept {name : String} (h : t.Mentions name)
    (ht : ∀ r ∈ t.rows, r.lhs ≠ intercept) : name ≠ intercept := by
  obtain ⟨r, hr, -, rfl | ⟨-, hne⟩⟩ := h
  · exact ht r hr
  · exact hne

theorem Added.ne_intercept {r : Relation} (h : t.Added r)
    (ht : ∀ r ∈ t.rows, r.lhs ≠ StructuralModel.intercept) :
    r.lhs ≠ StructuralModel.intercept := by
  cases h with
  | variance hname => exact hname.ne_intercept ht
  | intercept hname => exact hname.ne_intercept ht
  | covariance ha _ _ => exact ha.ne_intercept ht

/-- Added rows are sound. -/
theorem Added.sound {r : Relation} (h : t.Added r) (ht : ∀ r ∈ t.rows, r.Sound) : r.Sound := by
  cases h with
  | variance hname =>
    exact ⟨fun h => (by cases h), hname.isPart ht, hname.isPart ht, fun _ h => (by cases h)⟩
  | intercept hname =>
    exact ⟨fun h => (by cases h), hname.isPart ht, isPart_intercept, fun _ h => (by cases h)⟩
  | covariance ha hb _ =>
    exact ⟨fun h => (by cases h), ha.isPart ht, hb.isPart ht, fun _ h => (by cases h)⟩

/-- Added rows whose left sides are names are clear: what nothing predicts is no right side of a
    loading, and on the right sides of other relations there is no `=~`. -/
theorem Added.clear {r : Relation} (h : t.Added r) (hname : isName nameMarks r.lhs.toList = true)
    (hread : ∀ r ∈ t.rows, r.bare.Read) : r.Clear := by
  cases h with
  | variance => exact Relation.clear_of_isName hname rfl
  | intercept =>
    have hintercept : isName nameMarks StructuralModel.intercept.toList = true := by decide
    exact Relation.clear_of_isName hintercept rfl
  | @covariance a b _ hb hexogenous =>
    intro op hbefore
    obtain rfl : op = .loading := List.mem_singleton.1 hbefore
    obtain ⟨r, hr, -, rfl | ⟨rfl, -⟩⟩ := hb
    · exact Relation.splitOnce_symbol_eq_none (Relation.no_sign_of_isName (hread r hr).isName)
        (by decide)
    · have hop : r.op ≠ .loading := by
        intro hop
        have hpredicts : r.predicts r.rhs = true := by simp [Relation.predicts, hop]
        rw [isExogenous, List.any_eq_true.2 ⟨r, hr, hpredicts⟩] at hexogenous
        cases hexogenous
      exact (hread r hr).clear.splitOnce_rhs (hread r hr).toSound hop

end Table

/-! ## Grounded models -/

/-- What is known of a model that was compiled from a source with statements of the given texts. -/
structure Model.Grounded (m : Model) (texts : List (List Char)) : Prop where
  /-- Bounds belong to labels, and what is not free is computed. -/
  coherent : m.Coherent
  /-- The name is one that a heading can give. -/
  name : ∀ name, m.name = some name → Heading.IsName name.toList
  /-- There is something to write. -/
  ne_nil : m.clauses ≠ []
  /-- What is no row stands in the source as it is written. -/
  others : ∀ c ∈ m.clauses, c.isRelations = false → c.Stable ∧ c.text ∈ texts
  /-- Rows are made of parts. -/
  sound : ∀ r ∈ m.table.rows, r.Sound
  /-- The first row starts like a statement. -/
  start : ∀ r ∈ m.table.rows.head?, ∃ x ∈ r.lhs.toList.head?, Statement.isStart x = true
  /-- No left side is the mark of an intercept. -/
  ne_intercept : ∀ r ∈ m.table.rows, r.lhs ≠ intercept
  /-- If left sides are names, terms are clear. -/
  clear : ∀ r ∈ m.table.rows, isName nameMarks r.lhs.toList = true → r.Clear

/-- What a model has before it is completed, it still has. -/
theorem Model.clauses_compiled_ne_nil {m : Model} {o : Options} (h : m.clauses ≠ []) :
    (m.compiled o).clauses ≠ [] := by
  intro hnil
  have hnot (c : Clause) : c ∉ (m.compiled o).clauses := hnil ▸ List.not_mem_nil
  -- Left sides stay, so a row would still be there, and bounds need a row with their label.
  have hrow : ∀ r, r ∉ m.table.rows := by
    intro r hr
    have hlhs : r.lhs ∈ (m.compiled o).table.rows.map Relation.lhs :=
      (Table.map_lhs_compiled o m).subset (List.mem_map_of_mem hr)
    obtain ⟨r', hr', -⟩ := List.mem_map.1 hlhs
    exact hnot _ (mem_clauses.2 (.inl ⟨r', hr', rfl⟩))
  refine h (List.eq_nil_iff_forall_not_mem.2 fun c hc => ?_)
  rcases mem_clauses.1 hc with ⟨r, hr, -⟩ | ⟨label, hlabel, -⟩ | hother
  · exact hrow r hr
  · obtain ⟨r, hr, -⟩ := Table.mem_labels.1 hlabel
    exact hrow r hr
  · exact hnot c (mem_clauses.2 (.inr (.inr hother)))

/-- The first row of a completed model is the one that was read first. -/
theorem Model.exists_start_compiled {m : Model} {o : Options}
    (hread : ∀ r ∈ m.table.rows, r.bare.Read) : ∀ r ∈ (m.compiled o).table.rows.head?,
      ∃ x ∈ r.lhs.toList.head?, Statement.isStart x = true := by
  intro r hr
  cases hrows : m.table.rows with
  | nil =>
    rw [(Table.completes_compiled o m).rows_eq_nil hrows] at hr
    cases hr
  | cons first rest =>
    obtain ⟨more, hlhs⟩ := Table.map_lhs_compiled o m
    have hhead : (m.compiled o).table.rows.head?.map Relation.lhs = some first.lhs := by
      rw [← List.head?_map, ← hlhs, hrows]
      rfl
    rw [hr] at hhead
    rw [Option.some.inj hhead]
    exact (hread first (hrows ▸ List.mem_cons_self)).start

/-- Compiled models are grounded in the statements of their sources. -/
theorem exists_grounded {o : Options} {source : String} {m : CompiledModel}
    (h : compile o source = .ok m) :
    ∃ statements, Statement.ofSource (Heading.ofSource source.toList).offset
        (Heading.ofSource source.toList).body = .ok statements ∧
      m.toModel.Grounded (statements.map Statement.text) := by
  obtain ⟨p, hp, rfl⟩ := compile_eq_ok_iff.1 h
  obtain ⟨statements, hs, hname, hcoherent, hne, hread, clauses, hfrom, hmakes⟩ :=
    Model.exists_from_of_parse hp
  have hcompletes := Table.completes_compiled o p
  have hsound : ∀ r ∈ p.table.rows, r.Sound := fun r hr =>
    ⟨(hread r hr).isEdge, (hread r hr).lhs, (hread r hr).rhs, (hread r hr).modifier⟩
  have hlhs : ∀ r ∈ p.table.rows, r.lhs ≠ intercept := fun r hr => (hread r hr).ne_intercept
  refine ⟨statements, hs, hcoherent.compiled, fun name h => ?_, Model.clauses_compiled_ne_nil hne,
    fun c hc hrel => ?_, fun r hr => ?_, Model.exists_start_compiled hread, fun r hr => ?_,
    fun r hr hleft => ?_⟩
  · exact Heading.isName_of_ofSource (hname ▸ h)
  · obtain ⟨s, hmem, hsc⟩ := hmakes c (hfrom.compiled.mem_of_mem_clauses hc hrel)
    have htext := Clause.text_of_ofText? hsc hrel
    rw [htext]
    exact ⟨⟨htext ▸ hsc, htext ▸ ((compact_of_ofSource hs).1 s hmem).2⟩, List.mem_map_of_mem hmem⟩
  · obtain ⟨r₀, hr₀ | hr₀, hscales⟩ := hcompletes r hr
    · exact (hsound r₀ hr₀).scales hscales
    · exact (hr₀.sound hsound).scales hscales
  · obtain ⟨r₀, hr₀ | hr₀, hscales⟩ := hcompletes r hr
    · exact hscales.lhs_eq ▸ hlhs r₀ hr₀
    · exact hscales.lhs_eq ▸ hr₀.ne_intercept hlhs
  · obtain ⟨r₀, hr₀ | hr₀, hscales⟩ := hcompletes r hr
    · exact (hread r₀ hr₀).clear.scales (r := r₀) hscales
    · exact (hr₀.clear (hscales.lhs_eq ▸ hleft) hread).scales hscales

end StructuralModel
