import StructuralModel.Proofs.Model.Count

/-!
# Models written and read again

A compiled model *makes the round trip* (`CompiledModel.RoundTrips`) if its written form, compiled
without completion, gives the model again, places and remarks aside. Not every model does. A row is
*rereadable* (`Relation.Rereadable`) if its left side is a name as statements start with, and it is
no regression whose right side starts with a `~`, which would make a `~~` of its operator. And a
line that ends open is continued by the next one.

* `roundTrips_iff`: a compiled model makes the round trip iff all of its rows are rereadable and no
  line of its written form but the last one ends open.
-/

namespace StructuralModel

open Text (Balanced outside)

/-- A row that can be written at the start of a line and read again. -/
structure Relation.Rereadable (r : Relation) : Prop where
  /-- The left side is not empty and holds neither a space nor one of the marks `!+*=~:`. -/
  name : isName nameMarks r.lhs.toList = true
  /-- The left side starts with a letter, `_` or `{`. -/
  start : ∃ c ∈ r.lhs.toList.head?, Statement.isStart c = true
  /-- What stands behind the operator of a regression does not start with a `~`. -/
  regression : ¬(r.op = .regression ∧ r.term.head? = some '~')

instance (r : Relation) : Decidable r.Rereadable :=
  decidable_of_iff (isName nameMarks r.lhs.toList = true ∧
      r.lhs.toList.head?.any Statement.isStart = true ∧
      ¬(r.op = .regression ∧ r.term.head? = some '~'))
    ⟨fun ⟨hname, hstart, hregression⟩ => ⟨hname, (Option.any_eq_true ..).1 hstart, hregression⟩,
      fun h => ⟨h.name, (Option.any_eq_true ..).2 h.start, h.regression⟩⟩

/-- The written form of a model, compiled without completion, gives the model again. -/
def CompiledModel.RoundTrips (m : CompiledModel) : Prop :=
  ∃ m', compile .parseOnly m.render = .ok m' ∧ m'.name = m.name ∧
    m'.table.unplaced = m.table.unplaced ∧ m'.algebra = m.algebra ∧ m'.blocks = m.blocks

/-- Without completion a model is compiled iff it is read. -/
theorem CompiledModel.roundTrips_iff_parse {m : CompiledModel} :
    m.RoundTrips ↔ ∃ p, Model.parse m.render = .ok p ∧ p.unplaced = m.toModel.unplaced := by
  have hunplaced {p : Model} : p.unplaced = m.toModel.unplaced ↔ p.name = m.name ∧
      p.table.unplaced = m.table.unplaced ∧ p.algebra = m.algebra ∧ p.blocks = m.blocks := by
    simp only [Model.unplaced, Model.mk.injEq, and_true]
  constructor
  · rintro ⟨m', h, heq⟩
    obtain ⟨p, hp, rfl⟩ := compile_eq_ok_iff.1 h
    exact ⟨p, hp, hunplaced.2 heq⟩
  · rintro ⟨p, hp, heq⟩
    exact ⟨p.compiled .parseOnly, compile_eq_ok_iff.2 ⟨p, hp, rfl⟩, hunplaced.1 heq⟩

/-! ## Rows as clauses -/

namespace Relation

variable {r : Relation}

/-- A relation with the layout `gap` on both sides of its operator. -/
def spread (gap : List Char) (r : Relation) : List Char :=
  r.lhs.toList ++ (gap ++ (r.op.symbol.toList ++ (gap ++ r.term)))

/-- Whatever layout is around its operator, a sound row keeps its text. -/
theorem Sound.keeps_spread (h : r.Sound) {gap : List Char}
    (hgap : ∀ c ∈ gap, Token.isGap c = true) : Keeps (r.spread gap) r.text := by
  have hsymbol : Compact r.op.symbol.toList :=
    .of_words (List.all_eq_true.1 (by cases r.op <;> decide))
  have hterm : Compact r.term :=
    ⟨h.term.1, fun c hc => Statement.isWordChar_of_isOrdinary (h.term.2.1 c hc)⟩
  have hkeeps := (Keeps.of_compact h.lhs.compact).append ((Keeps.gap hgap).append
    ((Keeps.of_compact hsymbol).append ((Keeps.gap hgap).append (.of_compact hterm))))
  rw [spread, Relation.text, List.append_assoc]
  exact hkeeps

/-- The line of a sound row keeps its text. -/
theorem Sound.keeps (h : r.Sound) :
    Keeps (Clause.relations [r.bare]).line (Clause.relations [r.bare]).text := by
  have hline : (Clause.relations [r.bare]).line = r.spread [' '] :=
    (List.append_nil _).trans (toList_render r)
  rw [hline, Clause.text_row]
  exact h.keeps_spread (List.all_eq_true.1 (by decide))

theorem Sound.compact_text (h : r.Sound) : Compact (Clause.relations [r.bare]).text := by
  rw [Clause.text_row]
  exact ⟨h.text.1, fun c hc => Statement.isWordChar_of_isOrdinary (h.text.2.1 c hc)⟩

/-- The clause of a sound row is stable iff the row is rereadable. -/
theorem Sound.stable_iff (h : r.Sound)
    (hclear : isName nameMarks r.lhs.toList = true → r.Clear) :
    (Clause.relations [r.bare]).Stable ↔ r.Rereadable := by
  constructor
  · intro hstable
    have hmakes := hstable.makes
    rw [Clause.text_row] at hmakes
    obtain ⟨hname, hstart, hbefore⟩ := h.ofText?_text_iff.1 hmakes
    exact ⟨hname, hstart, ((hclear hname).splitOnce_symbol_term_iff h.isEdge).1 hbefore⟩
  · rintro ⟨hname, hstart, hregression⟩
    refine ⟨?_, h.compact_text⟩
    rw [Clause.text_row]
    exact h.ofText?_text_iff.2
      ⟨hname, hstart, ((hclear hname).splitOnce_symbol_term_iff h.isEdge).2 hregression⟩

end Relation

namespace Model

variable {m : Model} {texts : List (List Char)}

/-- Whatever a grounded model is written with, its lines keep texts that are not empty. -/
theorem Grounded.keeps (h : m.Grounded texts) {c : Clause} (hc : c ∈ m.clauses) :
    Keeps c.line c.text ∧ c.text ≠ [] := by
  cases hrel : c.isRelations with
  | true =>
    obtain ⟨r, hr, rfl⟩ := exists_row_of_isRelations hc hrel
    refine ⟨(h.sound r hr).keeps, fun hnil => (h.sound r hr).lhs.ne_nil ?_⟩
    rw [Clause.text_row, Relation.text, List.append_eq_nil_iff, List.append_eq_nil_iff] at hnil
    exact hnil.1.1
  | false =>
    obtain ⟨hstable, -⟩ := h.others c hc hrel
    refine ⟨hstable.keeps hrel, fun hnil => ?_⟩
    obtain ⟨x, rest, htext, -⟩ := Statement.exists_start_of_isValid
      (Clause.ofText?_eq_some_iff.1 hstable.makes).1
    rw [hnil] at htext
    cases htext

theorem Grounded.compact_text (h : m.Grounded texts) {c : Clause} (hc : c ∈ m.clauses) :
    Compact c.text := by
  cases hrel : c.isRelations with
  | true =>
    obtain ⟨r, hr, rfl⟩ := exists_row_of_isRelations hc hrel
    exact (h.sound r hr).compact_text
  | false => exact (h.others c hc hrel).1.compact

/-- If its rows are rereadable, all clauses of a grounded model are stable. -/
theorem Grounded.stable (h : m.Grounded texts) (hrows : ∀ r ∈ m.table.rows, r.Rereadable)
    {c : Clause} (hc : c ∈ m.clauses) : c.Stable := by
  cases hrel : c.isRelations with
  | true =>
    obtain ⟨r, hr, rfl⟩ := exists_row_of_isRelations hc hrel
    exact ((h.sound r hr).stable_iff (h.clear r hr)).2 (hrows r hr)
  | false => exact (h.others c hc hrel).1

/-- A grounded model whose rows are rereadable, and of whose lines only the last one may end open,
    is read back from its written form. -/
theorem Grounded.exists_parse_render (h : m.Grounded texts)
    (hrows : ∀ r ∈ m.table.rows, r.Rereadable)
    (hclosed : ∀ c ∈ m.clauses.dropLast, endsOpen c.text = false) :
    ∃ p, parse m.render = .ok p ∧ p.unplaced = m.unplaced :=
  Model.exists_parse_render h.name h.ne_nil h.coherent (fun _ hc => h.stable hrows hc)
    (fun _ hc => (h.keeps hc).1) hclosed

/-- The first clause of a grounded model starts like a statement. -/
theorem Grounded.exists_start (h : m.Grounded texts) :
    ∃ c ∈ m.clauses.head?, ∃ x ∈ c.text.head?, Statement.isStart x = true := by
  cases hclauses : m.clauses with
  | nil => exact absurd hclauses h.ne_nil
  | cons c rest =>
    refine ⟨c, rfl, ?_⟩
    have hc : c ∈ m.clauses := hclauses ▸ List.mem_cons_self
    cases hrel : c.isRelations with
    | false =>
      obtain ⟨x, rest, htext, hx⟩ := Statement.exists_start_of_isValid
        (Clause.ofText?_eq_some_iff.1 (h.others c hc hrel).1.makes).1
      exact ⟨x, by rw [htext]; rfl, hx⟩
    | true =>
      -- Rows come first, so a row that comes first is the first one.
      cases hrows : m.table.rows with
      | nil =>
        obtain ⟨r, hr, -⟩ := exists_row_of_isRelations hc hrel
        rw [hrows] at hr
        cases hr
      | cons r rows =>
        rw [clauses, hrows] at hclauses
        obtain rfl : Clause.relations [r.bare] = c := (List.cons.inj hclauses).1
        obtain ⟨x, hx, hstart⟩ := h.start r (by rw [hrows]; rfl)
        refine ⟨x, ?_, hstart⟩
        rw [Clause.text_row, Relation.text, List.append_assoc, List.head?_append, hx]
        rfl

/-- Of the texts that a grounded model is written with, joined where they end open, none makes more
    than one row: there is no `+` outside of rows, and other texts have nothing outside, or
    something that no relation may have. -/
theorem Grounded.length_rows_le (h : m.Grounded texts) {c : Clause} {text : List Char}
    (hmem : text ∈ joinOpen [] (m.clauses.map Clause.text)) (hc : Clause.ofText? text = some c) :
    c.rows.length ≤ 1 := by
  cases c with
  | relations rows =>
    obtain ⟨parts, hparts, htext⟩ := exists_flatten_of_mem_joinOpen hmem
    have htext : text = parts.flatten := by simpa using htext
    have hclause : ∀ part ∈ parts, ∃ c ∈ m.clauses, c.text = part := fun part hpart =>
      List.mem_map.1 (hparts part hpart)
    have hbalanced : ∀ part ∈ parts, Balanced part := by
      intro part hpart
      obtain ⟨c, hcmem, rfl⟩ := hclause part hpart
      exact (h.compact_text hcmem).balanced
    obtain ⟨hb, hout⟩ := Text.balanced_flatten hbalanced
    rw [← htext] at hb hout
    have hplus : '+' ∉ outside 0 text := by
      intro hplus
      obtain ⟨part, hpart, hin⟩ := (hout _).1 hplus
      obtain ⟨c, hcmem, rfl⟩ := hclause part hpart
      cases hrel : c.isRelations with
      | true =>
        obtain ⟨r, hr, rfl⟩ := exists_row_of_isRelations hcmem hrel
        rw [Clause.text_row] at hin
        exact (h.sound r hr).text.2.2 hin
      | false =>
        rcases (h.others c hcmem hrel).1.outside_text hrel with hnil | ⟨x, hx, hord⟩
        · rw [hnil] at hin
          cases hin
        · obtain ⟨hvalid, form, hform, hsays⟩ := Clause.ofText?_eq_some_iff.1 hc
          cases hsays with
          | relation =>
            have := ((Statement.isValid_iff_of_relation hform).1 hvalid).2 x
              ((hout x).2 ⟨_, hpart, hx⟩)
            rw [hord] at this
            cases this
    exact Nat.le_of_eq (Relation.length_rows_of_ofText? hc hb hplus)
  | _ => exact Nat.zero_le 1

/-- If the texts of its clauses, none of them joined, make a grounded model again, they make its
    clauses. -/
theorem Grounded.eq_clauses (h : m.Grounded texts) {made : List Clause}
    (hmade : (m.clauses.map Clause.text).map Clause.ofText? = made.map some)
    (hone : ∀ c ∈ made, c.rows.length ≤ 1) (hbare : ∀ c ∈ made, ∀ r ∈ c.rows, r.bare = r)
    (htable : (ofClauses made).table = m.unplaced.table) : made = m.clauses := by
  obtain ⟨others, hclauses, hothers⟩ := m.exists_clauses_append
  have hstable : ∀ c ∈ others, Clause.ofText? c.text = some c := by
    intro c hc
    have hmem : c ∈ m.clauses := by
      rw [hclauses]
      exact List.mem_append_right _ hc
    exact (h.others c hmem (hothers c hc)).1.makes
  rw [hclauses, List.map_append, List.map_append, eq_comm, List.map_eq_append_iff] at hmade
  obtain ⟨madeRows, madeOthers, rfl, hrows, hrest⟩ := hmade
  -- What is no row makes itself.
  obtain rfl : madeOthers = others := by
    rw [List.map_map] at hrest
    exact (List.map_inj_right fun _ _ => Option.some.inj).1
      (hrest.trans (List.map_congr_left hstable))
  have hnone : madeOthers.flatMap Clause.rows = [] := by
    refine List.flatMap_eq_nil_iff.2 fun c hc => ?_
    have := hothers c hc
    cases c with
    | relations => cases this
    | _ => rfl
  have hflat : madeRows.flatMap Clause.rows = m.table.rows.map Relation.bare := by
    have hmap := map_bare_ofClauses hbare
    rw [htable, List.flatMap_append, hnone, List.append_nil] at hmap
    exact hmap.symm.trans m.table.map_bare_unplaced
  have hlength : madeRows.length = (m.table.rows.map Relation.bare).length := by
    have := congrArg List.length hrows
    simpa using this
  rw [eq_map_relations (fun c hc => hone c (List.mem_append_left _ hc)) hflat hlength,
    List.map_map, hclauses]
  rfl

/-- If the texts of its clauses, joined where they end open, make as many clauses as there were, no
    text but the last one ends open: a text that does would leave fewer clauses. -/
theorem Grounded.closed_of_made (h : m.Grounded texts) {made : List Clause}
    (hmade : (joinOpen [] (m.clauses.map Clause.text)).map Clause.ofText? = made.map some)
    (hlength : m.clauses.length ≤ made.length) :
    ∀ c ∈ m.clauses.dropLast, endsOpen c.text = false := by
  intro c hc
  refine Bool.eq_false_iff.2 fun hopen => ?_
  have hne : ∀ text ∈ m.clauses.map Clause.text, text ≠ [] := by
    intro text htext
    obtain ⟨c, hc, rfl⟩ := List.mem_map.1 htext
    exact (h.keeps hc).2
  have hopen : ∃ text ∈ (m.clauses.map Clause.text).dropLast, endsOpen text = true :=
    ⟨c.text, by rw [← List.map_dropLast]; exact List.mem_map_of_mem hc, hopen⟩
  have hlt := length_joinOpen_lt [] hne hopen
  have hlen := congrArg List.length hmade
  rw [List.length_map, List.length_map] at hlen
  rw [List.length_map] at hlt
  omega

/-- If a grounded model is read back from its written form, its rows are rereadable, and no line
    but the last one ends open. -/
theorem Grounded.of_parse_render (h : m.Grounded texts) {p : Model}
    (hp : parse m.render = .ok p) (heq : p.unplaced = m.unplaced) :
    (∀ r ∈ m.table.rows, r.Rereadable) ∧
      ∀ c ∈ m.clauses.dropLast, endsOpen c.text = false := by
  obtain ⟨statements, made, hs, -, hmade, -, hp⟩ := parse_eq_ok_iff.1 ⟨p, hp, heq⟩
  obtain ⟨-, statements', hs', htexts⟩ :=
    exists_ofSource_render h.name h.exists_start fun _ hc => h.keeps hc
  obtain rfl : statements' = statements := Except.ok.inj (hs'.symm.trans hs)
  have hmade : (statements'.map Statement.text).map Clause.ofText? = made.map some := by
    rw [← hmade, List.map_map]
    rfl
  rw [htexts] at hmade
  have hone : ∀ c ∈ made, c.rows.length ≤ 1 := by
    intro c hc
    obtain ⟨text, htext, hc⟩ := List.mem_map.1 (hmade ▸ List.mem_map_of_mem hc)
    exact h.length_rows_le htext hc
  have hbare : ∀ c ∈ made, ∀ r ∈ c.rows, r.bare = r := by
    intro c hc r hr
    obtain ⟨text, htext, hc⟩ := List.mem_map.1 (hmade ▸ List.mem_map_of_mem hc)
    obtain ⟨s, hsmem, rfl⟩ := List.mem_map.1 (htexts ▸ htext)
    exact (Relation.read_of_mem_rows hc ((compact_of_ofSource hs).1 s hsmem).2.balanced r hr).bare
  have hclauses : m.clauses = (ofClauses made).clauses := by
    rw [← clauses_unplaced m, hp]
    rfl
  have hclosed := h.closed_of_made hmade (hclauses ▸ length_clauses_ofClauses_le hbare hone)
  rw [joinOpen_texts (fun c hc => (h.keeps hc).2) hclosed] at hmade
  have htable : (ofClauses made).table = m.unplaced.table := by rw [hp]
  obtain rfl := h.eq_clauses hmade hone hbare htable
  refine ⟨fun r hr => ?_, hclosed⟩
  have hc : Clause.relations [r.bare] ∈ m.clauses := mem_clauses.2 (.inl ⟨r, hr, rfl⟩)
  have hmakes : Clause.ofText? (Clause.relations [r.bare]).text = some (.relations [r.bare]) := by
    rw [List.map_map] at hmade
    exact List.map_inj_left.1 hmade _ hc
  exact ((h.sound r hr).stable_iff (h.clear r hr)).1 ⟨hmakes, (h.sound r hr).compact_text⟩

end Model

/-! ## The round trip -/

namespace CompiledModel

/-- A compiled model makes the round trip iff all of its rows are rereadable and no line of its
    written form but the last one ends open. -/
theorem roundTrips_iff {o : Options} {source : String} {m : CompiledModel}
    (h : compile o source = .ok m) :
    m.RoundTrips ↔ (∀ r ∈ m.table.rows, r.Rereadable) ∧
      ∀ c ∈ m.clauses.dropLast, endsOpen c.text = false := by
  obtain ⟨statements, -, hgrounded⟩ := exists_grounded h
  rw [roundTrips_iff_parse]
  constructor
  · rintro ⟨p, hp, heq⟩
    exact hgrounded.of_parse_render hp heq
  · rintro ⟨hrows, hclosed⟩
    exact hgrounded.exists_parse_render hrows hclosed

theorem eq_ok_of_toOption {α β : Type} {x : Except α β} {b : β} (h : x.toOption = some b) :
    x = .ok b := by
  cases x with
  | error => cases h
  | ok => rw [Option.some.inj h]

/-- A text with a heading and with statements of every kind. -/
def growthSource : String :=
  "=== growth ===\nf =~ x + a*y; y ~ \x7bk\x7d*x\na > 0; a < \x7b2*m\x7d\n" ++
  "!m; d := a^2 - m # not free\n\x7b group: f \x7d"

/-- The written form of its model, completed and identified. -/
def growthWritten : String :=
  "=== growth ===\nf =~ 1.0*x\nf =~ a*y\ny ~ \x7bk\x7d*x\nf ~~ f\ny ~~ y\nx ~~ x\ny ~ 1\nx ~ 1\n" ++
  "a > 0\na < \x7b2*m\x7d\n!m\nd := a^2-m\n\x7b group: f \x7d\n"

/-- A completed model with a name, a bounded label, a declaration, a definition and a block makes
    the round trip. -/
theorem roundTrips_growth : ∃ m, compile {} growthSource = .ok m ∧ m.render = growthWritten ∧
    m.RoundTrips := by
  obtain ⟨m, hm, hrender, hconditions⟩ : ∃ m ∈ (compile {} growthSource).toOption,
      m.render = growthWritten ∧ (∀ r ∈ m.table.rows, r.Rereadable) ∧
        ∀ c ∈ m.clauses.dropLast, endsOpen c.text = false := by decide +kernel
  have hcompile := eq_ok_of_toOption hm
  exact ⟨m, hcompile, hrender, (roundTrips_iff hcompile).2 hconditions⟩

/-- Not every model makes the round trip: the second term of `f~x+~y` is written as `f ~ ~y`, which
    is read as a covariance. -/
theorem not_roundTrips : ¬∀ (o : Options) (source : String) (m : CompiledModel),
    compile o source = .ok m → m.RoundTrips := by
  intro h
  have hm : compile .parseOnly "f~x+~y" = .ok {
      table := ⟨[
        { lhs := "f", op := .regression, rhs := "x", span := some (.ofBounds 0 6) },
        { lhs := "f", op := .regression, rhs := "~y", span := some (.ofBounds 0 6) }]⟩
      classes := { manifests := ["f", "x", "~y"] } } :=
    eq_ok_of_toOption (by decide +kernel)
  obtain ⟨m', hm', -, htable, -⟩ := h _ _ _ hm
  have hread := congrArg (fun x => x.toOption.map fun m => m.table.unplaced) hm'
  rw [show (Except.ok m' : Except (List Finding) CompiledModel).toOption.map
    (fun m => m.table.unplaced) = some m'.table.unplaced from rfl, htable] at hread
  exact absurd hread (by decide +kernel)

end CompiledModel

end StructuralModel
