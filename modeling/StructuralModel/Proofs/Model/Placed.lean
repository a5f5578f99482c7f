import StructuralModel.Proofs.Heading
import StructuralModel.Proofs.Model.Completed
import StructuralModel.Proofs.Model.Reading
import StructuralModel.Proofs.Statement.Placed

/-!
# Places of models

Whatever is said about a model text points into the text: every label of every diagnostic has a span
within it, and so has every row that was written there (`Table.Placed`). The statements of a text
lie in it, so all that is found on them is placed; completion appends rows without span, and
identification changes no span and remarks on spans of rows.

* `Model.laid_parse`: what is read, or found to be wrong, is placed;
* `Table.Placed.identify`: so are the remarks on how a table is identified;
* `placed_compile`: so is all that is compiled, and the rows that are appended have no span.
-/

namespace StructuralModel

open Text (byteSize)

/-! ## Tables -/

namespace Table

variable {source : String} {t t' : Table} {f : Finding}

/-- The rows of a table that were written are written in a source. -/
def Placed (source : String) (t : Table) : Prop :=
  ∀ r ∈ t.rows, ∀ span ∈ r.span, span.Within source

/-- A table is placed if all its spans are spans of a table that is. -/
theorem Placed.of_span (h : t.Placed source)
    (hspan : ∀ span, some span ∈ t'.rows.map Relation.span →
      some span ∈ t.rows.map Relation.span) : t'.Placed source := by
  intro r hr span hr'
  obtain ⟨r₀, hr₀, heq⟩ := List.mem_map.1 (hspan span (List.mem_map.2 ⟨r, hr, hr'⟩))
  exact h r₀ hr₀ span heq

/-- Rows may change as long as they stay where they are written. -/
theorem Placed.updateLabelled (h : t.Placed source) (name : String) {change : Relation → Relation}
    (hchange : ∀ r, (change r).span = r.span) : (t.updateLabelled name change).Placed source := by
  intro r hr
  obtain ⟨r₀, hr₀, rfl⟩ := List.mem_map.1 hr
  split
  · rw [hchange]
    exact h r₀ hr₀
  · exact h r₀ hr₀

/-- Fixing rows moves none of them. -/
theorem Scales.map_span (h : t.Scales t') :
    t'.rows.map Relation.span = t.rows.map Relation.span := by
  have hmap := congrArg (List.map Relation.span) h.map_unmodified
  rwa [List.map_map, List.map_map] at hmap

theorem Placed.scales (h : t.Placed source) (hscales : t.Scales t') : t'.Placed source :=
  h.of_span fun _ hspan => hscales.map_span ▸ hspan

/-- Completion appends rows without span. -/
theorem exists_map_span_complete (o : Options) (t : Table) :
    ∃ n, (t.complete o t.classify).rows.map Relation.span =
      t.rows.map Relation.span ++ List.replicate n none := by
  obtain ⟨added, hadded, hall⟩ := Extends.complete o t
  have hnone : added.map Relation.span = List.replicate added.length none := by
    rw [List.map_eq_replicate_iff]
    intro r hr
    cases hall r hr <;> rfl
  exact ⟨added.length, by rw [hadded, List.map_append, hnone]⟩

theorem Placed.complete (h : t.Placed source) (o : Options) :
    (t.complete o t.classify).Placed source := by
  obtain ⟨n, hcomplete⟩ := exists_map_span_complete o t
  refine h.of_span fun span hspan => ?_
  rw [hcomplete] at hspan
  rcases List.mem_append.1 hspan with hspan | hspan
  · exact hspan
  · cases (List.mem_replicate.1 hspan).2

/-! ## Identification -/

/-- The remark on the variance of a latent variable points at the row of the variance. -/
theorem Placed.scaleLatentVariance (h : t.Placed source) {latent : String}
    (hf : f ∈ (t.scaleLatentVariance latent).2) : f.diagnostic.Placed source := by
  rw [Table.scaleLatentVariance] at hf
  split at hf
  case h_1 =>
    rw [List.mem_singleton.1 hf]
    exact .row (fun _ h => (by cases h)) rfl (show _ = Finding.rowLabel none "" from rfl)
  case h_2 r hr =>
    have hspan := h r (List.mem_of_find?_eq_some hr)
    split at hf
    case h_1 => cases hf
    case h_2 | h_3 =>
      rw [List.mem_singleton.1 hf]
      exact .row hspan rfl rfl

/-- The remark on the loadings of a latent variable points at one of them. -/
theorem Placed.scaleLoading (h : t.Placed source) {latent : String}
    (hf : f ∈ (t.scaleLoading latent).2) : f.diagnostic.Placed source := by
  rw [Table.scaleLoading] at hf
  split at hf
  case h_1 r hr =>
    rw [List.mem_singleton.1 hf]
    exact .row (h r (List.mem_of_find?_eq_some hr)) rfl rfl
  case h_2 =>
    split at hf
    · cases hf
    · rw [List.mem_singleton.1 hf]
      refine .row (fun span hspan => ?_) rfl rfl
      obtain ⟨r, hr, hspan⟩ := Option.bind_eq_some_iff.1 hspan
      exact h r (List.mem_of_find?_eq_some hr) span hspan

/-- The remarks on all latent variables point at rows, if those on each of them do. -/
theorem Placed.scaleEach {scale : Table → String → Table × List Finding}
    (hscales : ∀ (t : Table) latent, t.Scales (scale t latent).1)
    (hstep : ∀ {t : Table} {latent : String}, t.Placed source →
      ∀ f ∈ (scale t latent).2, f.diagnostic.Placed source)
    (h : t.Placed source) (latents : List String) :
    ∀ f ∈ (Table.scaleEach scale t latents).2, f.diagnostic.Placed source := by
  induction latents generalizing t with
  | nil =>
    intro f hf
    cases hf
  | cons latent latents ih =>
    intro f hf
    rcases List.mem_append.1 hf with hf | hf
    · exact hstep h f hf
    · exact ih (h.scales (hscales t latent)) f hf

/-- The remarks on how a table is identified are placed. -/
theorem Placed.identify (h : t.Placed source) (o : Options) (latents : List String) :
    ∀ f ∈ (t.identify o latents).2, f.diagnostic.Placed source := by
  have hvariances {t : Table} (h : t.Placed source) :=
    h.scaleEach .scaleLatentVariance (fun h _ hf => h.scaleLatentVariance hf) latents
  have hloadings {t : Table} (h : t.Placed source) :=
    h.scaleEach .scaleLoading (fun h _ hf => h.scaleLoading hf) latents
  intro f hf
  rw [Table.identify] at hf
  rcases List.mem_append.1 hf with hf | hf
  · split at hf
    · exact hvariances h f hf
    · cases hf
  · -- Loadings are scaled when variances are.
    have hscaled : (if o.scaleLatentVariances then t.scaleLatentVariances latents
        else (t, [])).1.Placed source := by
      split
      · exact h.scales (.scaleEach .scaleLatentVariance t latents)
      · exact h
    split at hf
    · exact hloadings hscaled f hf
    · cases hf

end Table

namespace Model

variable {source : String} {statements : List Statement}

/-! ## Models from statements -/

/-- What is found on statements of a source is placed. -/
theorem placed_findings (h : ∀ s ∈ statements, s.LiesIn source) :
    ∀ f ∈ findings statements, f.diagnostic.Placed source := by
  intro f hf
  have hformed {g : Statement × Form → Option Finding}
      (hg : ∀ s form, s.LiesIn source → s.form? = some form → g (s, form) = some f →
        f.diagnostic.Placed source)
      (hf : f ∈ (formed statements).filterMap g) : f.diagnostic.Placed source := by
    obtain ⟨⟨s, form⟩, hp, hf⟩ := List.mem_filterMap.1 hf
    obtain ⟨hs, hform⟩ := mem_formed.1 hp
    exact hg s form (h s hs) hform hf
  rw [findings] at hf
  simp only [List.mem_append] at hf
  rcases hf with (((hf | hf) | hf) | hf) | hf
  · obtain ⟨s, hs, hf⟩ := List.mem_filterMap.1 hf
    rw [Statement.formFault?] at hf
    split at hf
    · cases hf
    · cases hf
      exact .single (h s hs).within_span rfl
  · obtain ⟨⟨s, form⟩, hp, hf⟩ := List.mem_flatMap.1 hf
    obtain ⟨hs, hform⟩ := mem_formed.1 hp
    exact Form.placed_readRelation (h s hs) hform hf
  · exact hformed (fun _ _ => Form.placed_boundFault?) hf
  · exact hformed (fun _ _ => Form.placed_declarationFault?) hf
  · exact hformed (fun _ _ => Form.placed_definitionFault?) hf

/-- The rows of relations lie where their statements do. -/
theorem placed_relationTable (h : ∀ s ∈ statements, s.LiesIn source) :
    (relationTable statements).Placed source := by
  intro r hr
  obtain ⟨⟨s, form⟩, hp, hr⟩ := List.mem_flatMap.1 hr
  have hs := (h s (mem_formed.1 hp).1).within_span
  have hr : r ∈ (form.readRelation s).2 := hr
  cases form with
  | relation op lhs rhs =>
    rw [Form.readRelation] at hr
    split at hr
    · cases hr
    · obtain ⟨term, -, rfl⟩ := List.mem_map.1 hr
      rintro _ ⟨⟩
      exact hs
  | _ => cases hr

/-- The rows of a model lie where its statements do. -/
theorem placed_ofStatements (h : ∀ s ∈ statements, s.LiesIn source) :
    (ofStatements statements).table.Placed source := by
  have fold {step : Table → Form → Table}
      (hstep : ∀ {t : Table} (form : Form), t.Placed source → (step t form).Placed source)
      {t : Table} (ht : t.Placed source) (forms : List Form) :
      (forms.foldl step t).Placed source := by
    induction forms generalizing t with
    | nil => exact ht
    | cons form forms ih => exact ih (hstep form ht)
  refine fold (fun form ht => ?_) (fold (fun form ht => ?_) (placed_relationTable h) _) _
  · cases form with
    | definition name => exact ht.updateLabelled _ fun r => rfl
    | _ => exact ht
  · cases form with
    | bound side target value => exact ht.updateLabelled _ fun r => by cases side <;> rfl
    | _ => exact ht

/-! ## Models of a source -/

/-- A model that was read is placed, and so is what was found to be wrong. -/
def Laid (source : String) : Except (List Finding) Model → Prop
  | .error faults => ∀ f ∈ faults, f.diagnostic.Placed source
  | .ok m => (∀ f ∈ m.remarks, f.diagnostic.Placed source) ∧ m.table.Placed source

/-- What is made of statements of a source is placed. -/
theorem laid_ofBody (name : Option String) {body : Span} (hbody : body.Within source)
    (h : ∀ s ∈ statements, s.LiesIn source) : Laid source (ofBody name body statements) := by
  rw [ofBody]
  split
  · exact List.forall_mem_singleton.2 (.single hbody rfl)
  · rw [Statement.validate]
    split
    · rw [Except.bind, build]
      split
      · exact placed_findings h
      · exact ⟨placed_findings h, placed_ofStatements h⟩
    · intro f hf
      obtain ⟨s, hs, hf⟩ := List.mem_filterMap.1 hf
      exact (h s hs).placed_of_invalid? hf

/-- What is read from a source, or found to be wrong with it, is placed. -/
theorem laid_parse (source : String) : Laid source (parse source) := by
  obtain ⟨front, hsource, hoffset⟩ := Heading.exists_append_body source.toList
  have hstatements := Statement.laid_ofSource hsource.symm
  have hbody : (Span.ofBounds (Text.byteSize front) (Text.byteSize source.toList)).Within source :=
    Span.within_ofBounds ⟨front, ⟨_, hsource⟩, rfl⟩ (Text.isPlace_byteSize _)
  rw [parse_eq, hoffset]
  cases hs : Statement.ofSource (Text.byteSize front) (Heading.ofSource source.toList).body with
  | error fault =>
    rw [hs] at hstatements
    exact List.forall_mem_singleton.2 hstatements
  | ok statements =>
    rw [hs] at hstatements
    exact laid_ofBody _ hbody hstatements

end Model

/-! ## Compiled models -/

/-- The rows that were read keep their spans, and those that were appended have none. -/
theorem Model.map_span_compiled (o : Options) (m : Model) :
    (m.compiled o).table.rows.map Relation.span = m.table.rows.map Relation.span ++
      List.replicate ((m.compiled o).table.rows.length - m.table.rows.length) none := by
  obtain ⟨n, hcomplete⟩ := Table.exists_map_span_complete o m.table
  have hspan : (m.compiled o).table.rows.map Relation.span =
      m.table.rows.map Relation.span ++ List.replicate n none :=
    (Table.Scales.identify o m.table.latents _).map_span.trans hcomplete
  have hlength := congrArg List.length hspan
  simp only [List.length_map, List.length_append, List.length_replicate] at hlength
  rw [hspan, hlength, Nat.add_sub_cancel_left]

/-- Whatever is compiled, every diagnostic is placed in the source. If there is a model, its rows
    are placed too: those that were read are where they were written, and those that were appended
    have no span. -/
theorem placed_compile (o : Options) (source : String) :
    match compile o source with
    | .error faults => ∀ f ∈ faults, f.diagnostic.Placed source
    | .ok m => (∀ f ∈ m.remarks, f.diagnostic.Placed source) ∧ m.table.Placed source ∧
        ∃ p, Model.parse source = .ok p ∧
          m.table.rows.map Relation.span = p.table.rows.map Relation.span ++
            List.replicate (m.table.rows.length - p.table.rows.length) none := by
  have hparse := Model.laid_parse source
  rw [compile]
  cases hp : Model.parse source with
  | error faults =>
    rw [hp] at hparse
    exact hparse
  | ok p =>
    rw [hp] at hparse
    obtain ⟨hremarks, hrows⟩ := hparse
    have hcomplete := hrows.complete o
    refine ⟨fun f hf => ?_, ?_, p, rfl, p.map_span_compiled o⟩
    · rcases List.mem_append.1 hf with hf | hf
      · exact hremarks f hf
      · exact hcomplete.identify o _ f hf
    · exact hcomplete.scales (.identify o _ _)

/-- Spans count bytes, whatever characters there are. -/
example : (match compile {} "é =~ x; y ~ €" with
    | .error faults => faults.flatMap fun f => f.diagnostic.labels.map fun l => l.span.render
    | .ok _ => []) = ["13..16", "9..16"] := by
  decide +kernel

end StructuralModel
