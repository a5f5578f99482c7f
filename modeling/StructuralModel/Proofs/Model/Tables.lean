import StructuralModel.Proofs.Model.RoundTrip
import StructuralModel.Proofs.Statement.Plain

/-!
# Tables written and read

A table need not come from a text. If its rows are made of identifiers and numerals
(`Relation.Plain`) and rows with one label have the same bounds, the written form of the table is a
model text, and the table is read back from it.

* `Plain.sound`, `Plain.rereadable`: such rows can be written and read;
* `stable_bound`: so can the bounds of labels;
* `Table.parse_render`: reading undoes writing.
-/

namespace StructuralModel

open Text (outside isIdentifier isNumeral isPlainChar)

/-- A free row with identifiers as names and label, and with numerals as value and bounds. Only a
    row with a label has bounds. -/
structure Relation.Plain (r : Relation) : Prop where
  free : r.free = true
  isEdge : r.op ≠ .define
  lhs : isIdentifier r.lhs.toList = true
  rhs : isIdentifier r.rhs.toList = true ∨ r.rhs = intercept
  label : ∀ name, r.modifier = some (.label name) → isIdentifier name.toList = true
  value : ∀ value, r.modifier = some (.fixed value) → isNumeral value.toList = true
  bound : ∀ side value, r.bound? side = some value →
    r.label? ≠ none ∧ isNumeral value.toList = true

/-! ## Rows -/

namespace Relation.Plain

variable {r : Relation}

theorem isPlain_rhs (h : r.Plain) : IsPlain r.rhs.toList := by
  rcases h.rhs with hname | hone
  · exact isPlain_of_isIdentifier hname
  · rw [hone]
    exact isPlain_of_isNumeral (by decide)

theorem isPlain_modifier (h : r.Plain) {m : Modifier} (hm : r.modifier = some m) :
    IsPlain m.text.toList := by
  cases m with
  | label name => exact isPlain_of_isIdentifier (h.label name hm)
  | fixed value => exact isPlain_of_isNumeral (h.value value hm)

theorem isIdentifier_label (h : r.Plain) {label : String} (hlabel : r.label? = some label) :
    isIdentifier label.toList = true := by
  obtain ⟨m, hm, hname⟩ := Option.bind_eq_some_iff.1 hlabel
  cases m with
  | label name =>
    obtain rfl := Option.some.inj hname
    exact h.label name hm
  | fixed => cases hname

theorem sound (h : r.Plain) : r.Sound := by
  refine ⟨h.isEdge, (isPlain_of_isIdentifier h.lhs).isPart, h.isPlain_rhs.isPart, fun m hm => ?_⟩
  refine ⟨(h.isPlain_modifier hm).isPart, ?_⟩
  rw [Modifier.ofPiece, Piece.render, String.ofList_toList]
  cases m with
  | label name => exact if_neg (Bool.eq_false_iff.1 (isNumeral_of_isIdentifier (h.label name hm)))
  | fixed value => exact if_pos (h.value value hm)

/-- Beside plain characters a term has only the `*` behind a modifier. -/
theorem not_mem_term (h : r.Plain) {c : Char} (hc : isPlainChar c = false) (hstar : c ≠ '*') :
    c ∉ r.term := by
  rw [term]
  cases hm : r.modifier with
  | none => exact h.isPlain_rhs.not_mem hc
  | some m =>
    simp only [List.mem_append, List.mem_singleton, not_or]
    exact ⟨⟨(h.isPlain_modifier hm).not_mem hc, hstar⟩, h.isPlain_rhs.not_mem hc⟩

theorem clear (h : r.Plain) : r.Clear := fun _ hop =>
  splitOnce_symbol_eq_none
    ⟨fun hmem => h.not_mem_term (by decide +kernel) (by decide) (Text.mem_of_mem_outside hmem),
      fun hmem => h.not_mem_term (by decide +kernel) (by decide) (Text.mem_of_mem_outside hmem)⟩
    (ne_define_of_mem_before hop)

theorem rereadable (h : r.Plain) : r.Rereadable := by
  have hlhs := isPlain_of_isIdentifier h.lhs
  refine ⟨isName_iff.2 ⟨hlhs.ne_nil, fun c hc => ⟨?_, ?_⟩⟩, isStart_of_isIdentifier h.lhs, ?_⟩
  · rintro rfl
    exact hlhs.not_mem (by decide +kernel) hc
  · intro hmem
    have hmem : c ∈ ['!', '+', '*', '=', '~', ':'] := hmem
    simp only [List.mem_cons, List.not_mem_nil, or_false] at hmem
    rcases hmem with rfl | rfl | rfl | rfl | rfl | rfl
    all_goals exact hlhs.not_mem (by decide +kernel) hc
  · rintro ⟨-, hhead⟩
    exact h.not_mem_term (by decide +kernel) (by decide) (List.mem_of_mem_head? hhead)

theorem stable (h : r.Plain) : (Clause.relations [r.bare]).Stable :=
  (h.sound.stable_iff fun _ => h.clear).2 h.rereadable

theorem endsOpen_text (h : r.Plain) : endsOpen (Clause.relations [r.bare]).text = false := by
  rw [Clause.text_row, Relation.text, Relation.term, ← List.append_assoc,
    endsOpen_append _ h.isPlain_rhs.ne_nil]
  exact h.isPlain_rhs.endsOpen

end Relation.Plain

/-! ## Bounds -/

namespace Clause

variable {label value : String} {side : Bound}

/-- Beside plain characters a bound has only its sign. -/
theorem not_mem_text_bound (hlabel : IsPlain label.toList) (hvalue : IsPlain value.toList)
    {c : Char} (hc : isPlainChar c = false) (hsign : c ≠ side.symbol) :
    c ∉ (bound label side value).text := by
  simp only [text, List.mem_append, List.mem_singleton, not_or]
  exact ⟨⟨hlabel.not_mem hc, hsign⟩, hvalue.not_mem hc⟩

theorem outside_text_bound (hlabel : IsPlain label.toList) (hvalue : IsPlain value.toList) :
    outside 0 (bound label side value).text = (bound label side value).text := by
  refine (Text.balanced_of_no_brace fun c hc => ⟨?_, ?_⟩).2
  · rintro rfl
    exact not_mem_text_bound hlabel hvalue (by decide +kernel) (by cases side <;> decide) hc
  · rintro rfl
    exact not_mem_text_bound hlabel hvalue (by decide +kernel) (by cases side <;> decide) hc

theorem isOrdinary_of_mem_text_bound (hlabel : IsPlain label.toList)
    (hvalue : IsPlain value.toList) {c : Char} (hc : c ∈ (bound label side value).text) :
    Statement.isOrdinary c = true ∨ c = side.symbol := by
  rcases List.mem_append.1 hc with hc | hc
  · rcases List.mem_append.1 hc with hc | hc
    · exact .inl (hlabel.isOrdinary c hc)
    · exact .inr (List.mem_singleton.1 hc)
  · exact .inl (hvalue.isOrdinary c hc)

/-- A bound of a plain label by a plain value is cut at its sign. -/
theorem cut_text_bound (side : Bound) (hlabel : IsPlain label.toList)
    (hvalue : IsPlain value.toList) :
    Form.Cut ⟨0, (bound label side value).text⟩ (.bound side ⟨0, label.toList⟩
      ⟨0 + Text.byteSize label.toList + Text.byteSize [side.symbol], value.toList⟩) := by
  have hnot {c : Char} (hc : isPlainChar c = false) (hsign : c ≠ side.symbol) :
      c ∉ outside 0 (bound label side value).text := by
    rw [outside_text_bound hlabel hvalue]
    exact not_mem_text_bound hlabel hvalue hc hsign
  refine .bound ?_ (fun op => ?_) ?_ fun hupper => ?_
  -- A block has nothing outside of braces, but all of this is outside.
  · refine Bool.eq_false_iff.2 fun hblock => hlabel.ne_nil ?_
    have hnil := (Text.balanced_of_isBlock hblock).2
    rw [outside_text_bound hlabel hvalue, text, List.append_eq_nil_iff,
      List.append_eq_nil_iff] at hnil
    exact hnil.1.1
  · cases op with
    | define =>
      exact Text.splitOnce_eq_none_of_not_mem (by decide)
        (hnot (by decide +kernel) (by cases side <;> decide))
    | _ =>
      exact Relation.splitOnce_symbol_eq_none
        ⟨hnot (by decide +kernel) (by cases side <;> decide),
          hnot (by decide +kernel) (by cases side <;> decide)⟩ (by decide)
  -- The first sign is the one behind the label.
  · have hsign : side.symbol ∉ outside 0 label.toList := by
      rw [hlabel.balanced.2]
      exact hlabel.not_mem (by cases side <;> decide +kernel)
    rw [Piece.splitOnce, text, List.append_assoc,
      Text.splitOnce_append_left (by cases side <;> decide) hlabel.balanced.1.depth_eq hsign,
      Text.splitOnce_self_append (List.cons_ne_nil _ _)]
    simp
  · exact Text.splitOnce_eq_none_of_not_mem (by decide)
      (hnot (by decide +kernel) (by rw [hupper]; decide))

/-- A bound of a label that is an identifier by a numeral can be written and read. -/
theorem stable_bound (side : Bound) (hlabel : isIdentifier label.toList = true)
    (hvalue : isNumeral value.toList = true) : (bound label side value).Stable := by
  have hstart := isStart_of_isIdentifier hlabel
  have hlabel := isPlain_of_isIdentifier hlabel
  have hvalue := isPlain_of_isNumeral hvalue
  have hform := Form.ofPiece?_eq_some_iff.2 (cut_text_bound side hlabel hvalue)
  have hhead : (bound label side value).text.head? = label.toList.head? := by
    cases hl : label.toList with
    | nil => exact absurd hl hlabel.ne_nil
    | cons c rest => simp [text, hl]
  have hsays : Says (bound label side value).text (.bound side ⟨0, label.toList⟩
      ⟨0 + Text.byteSize label.toList + Text.byteSize [side.symbol], value.toList⟩) _ :=
    .bound (by simpa [Piece.isEmpty] using hvalue.ne_nil)
  refine ⟨ofText?_eq_some_iff.2 ⟨?_, _, hform, ?_⟩, .of_words fun c hc => ?_⟩
  · rw [Statement.isValid, hform, hhead, Bool.and_eq_true, Option.any_eq_true]
    refine ⟨hstart, List.all_eq_true.2 fun c hc => ?_⟩
    have hc : c ∈ outside 0 (bound label side value).text := hc
    rw [outside_text_bound hlabel hvalue] at hc
    rcases isOrdinary_of_mem_text_bound hlabel hvalue hc with h | rfl
    · rw [h]
      rfl
    · simp
  · simpa [Piece.render] using hsays
  · rcases isOrdinary_of_mem_text_bound hlabel hvalue hc with h | rfl
    · exact Statement.isWordChar_of_isOrdinary h
    · cases side <;> decide

end Clause

/-! ## Tables -/

namespace Model

variable {t : Table}

/-- The model that has nothing but a table. -/
def ofTable (t : Table) : Model :=
  { table := t }

theorem render_ofTable (t : Table) : (ofTable t).render = t.render := by
  have hrest : ({} : Algebra).render = "" := rfl
  simp [ofTable, render, hrest]

/-- Plain rows that share their bounds with their labels make a coherent model. -/
theorem coherent_ofTable (hrows : ∀ r ∈ t.rows, r.Plain)
    (hbounds : ∀ r ∈ t.rows, ∀ r' ∈ t.rows, ∀ label, r.label? = some label →
      r'.label? = some label → r.lower = r'.lower ∧ r.upper = r'.upper) :
    (ofTable t).Coherent := by
  have hunbounded : ∀ r ∈ t.rows, r.label? = none → ∀ side, r.bound? side = none := by
    intro r hr hnone side
    cases hbound : r.bound? side with
    | none => rfl
    | some value => exact absurd hnone ((hrows r hr).bound side value hbound).1
  refine ⟨fun r hr r' hr' hsame side => ?_, hunbounded, fun r hr => (hrows r hr).free,
    List.nodup_nil, fun _ hp => (by cases hp)⟩
  cases hlabel : r.label? with
  | none => rw [hunbounded r hr hlabel, hunbounded r' hr' (hsame.symm.trans hlabel)]
  | some label =>
    obtain ⟨hlower, hupper⟩ := hbounds r hr r' hr' label hlabel (hsame.symm.trans hlabel)
    cases side with
    | lower => exact hlower
    | upper => exact hupper

/-- The clauses of a table of plain rows can be written and read, and none of them ends open. -/
theorem stable_of_mem_clauses_ofTable (hrows : ∀ r ∈ t.rows, r.Plain) {c : Clause}
    (hc : c ∈ (ofTable t).clauses) : c.Stable ∧ Keeps c.line c.text ∧ endsOpen c.text = false := by
  rcases mem_clauses.1 hc with ⟨r, hr, rfl⟩ | ⟨label, -, hbound⟩ | ⟨p, hp, -⟩ | ⟨d, hd, -⟩ |
    ⟨text, ht, -⟩
  · exact ⟨(hrows r hr).stable, (hrows r hr).sound.keeps, (hrows r hr).endsOpen_text⟩
  · obtain ⟨r, side, value, hfind, hvalue, rfl⟩ := Table.mem_boundClauses.1 hbound
    have hr := hrows r (List.mem_of_find?_eq_some hfind)
    have hlabel := Relation.hasLabel_iff.1 (List.find?_some hfind)
    obtain ⟨-, hnumeral⟩ := hr.bound side value hvalue
    have hstable := Clause.stable_bound side (hr.isIdentifier_label hlabel) hnumeral
    refine ⟨hstable, hstable.keeps rfl, ?_⟩
    rw [Clause.text, endsOpen_append _ (isPlain_of_isNumeral hnumeral).ne_nil]
    exact (isPlain_of_isNumeral hnumeral).endsOpen
  · cases hp
  · cases hd
  · cases ht

end Model

/-- A table of plain rows, of which those with one label have the same bounds, is read back from its
    written form, places aside, and there is nothing else in the model that is read. -/
theorem Table.parse_render {t : Table} (hne : t.rows ≠ []) (hrows : ∀ r ∈ t.rows, r.Plain)
    (hbounds : ∀ r ∈ t.rows, ∀ r' ∈ t.rows, ∀ label, r.label? = some label →
      r'.label? = some label → r.lower = r'.lower ∧ r.upper = r'.upper) :
    ∃ m, Model.parse t.render = .ok m ∧ m.table.unplaced = t.unplaced ∧ m.algebra = {} ∧
      m.blocks = [] ∧ m.name = none := by
  have hclause := fun c hc => Model.stable_of_mem_clauses_ofTable hrows (c := c) hc
  -- There is some row to write.
  have hclauses : (Model.ofTable t).clauses ≠ [] := by
    intro hnil
    obtain ⟨r, rows, hcons⟩ := List.exists_cons_of_ne_nil hne
    have hr : r ∈ t.rows := hcons ▸ List.mem_cons_self
    have hmem := Model.mem_clauses (m := .ofTable t).2 (.inl ⟨r, hr, rfl⟩)
    rw [hnil] at hmem
    cases hmem
  obtain ⟨m, hm, heq⟩ := Model.exists_parse_render (m := .ofTable t)
    (fun _ h => (by cases h)) hclauses (Model.coherent_ofTable hrows hbounds)
    (fun c hc => (hclause c hc).1) (fun c hc => (hclause c hc).2.1)
    fun c hc => (hclause c (List.dropLast_subset _ hc)).2.2
  rw [Model.render_ofTable] at hm
  exact ⟨m, hm, congrArg Model.table heq, congrArg Model.algebra heq, congrArg Model.blocks heq,
    congrArg Model.name heq⟩

/-- A fixed loading, two loadings that share a bounded parameter, and an intercept. -/
def Table.boundedLoadings : Table :=
  ⟨[{ lhs := "f", op := .loading, rhs := "x", modifier := some (.fixed "1.0") },
    { lhs := "f", op := .loading, rhs := "y", modifier := some (.label "a"), upper := some "2.5" },
    { lhs := "f", op := .loading, rhs := "z", modifier := some (.label "a"), upper := some "2.5" },
    { lhs := "z", op := .regression, rhs := intercept }]⟩

/-- This table is read back from its written form. -/
theorem Table.parse_render_boundedLoadings : ∃ m,
    Model.parse boundedLoadings.render = .ok m ∧
      m.table.unplaced = boundedLoadings.unplaced ∧ m.algebra = {} ∧ m.blocks = [] ∧
      m.name = none := by
  refine parse_render (List.cons_ne_nil _ _) ?_ (by decide)
  simp only [boundedLoadings, List.forall_mem_cons]
  refine ⟨?_, ?_, ?_, ?_, fun _ h => (by cases h)⟩
  all_goals
    refine ⟨rfl, by decide, by decide +kernel, by decide +kernel, fun name h => ?_,
      fun value h => ?_, fun side value h => ?_⟩
    · cases h <;> decide +kernel
    · cases h <;> decide +kernel
    · cases side <;> cases h <;> decide +kernel

end StructuralModel
