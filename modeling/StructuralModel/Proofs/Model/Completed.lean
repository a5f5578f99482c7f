import StructuralModel.Model.Compile

/-!
# Completed tables

When a table is completed and identified, rows are appended and modifiers of rows that have none are
fixed, and nothing else happens. Each row that is appended is a variance, an intercept, or a
covariance of variables that nothing predicts, of names that the table mentions (`Table.Added`).

* `completes_compiled`: every row of a compiled table is a row of the table that was read, or an
  added one, perhaps fixed;
* `map_lhs_compiled`: the left sides of the table that was read are still the first ones.
-/

namespace StructuralModel

namespace Relation

/-- A row is as it was, or it had no modifier and is fixed. -/
def Scales (r r' : Relation) : Prop :=
  r' = r ∨ r.modifier = none ∧ r' = { r with modifier := some (.fixed Table.scalingValue) }

/-- A row without its modifier. -/
def unmodified (r : Relation) : Relation :=
  { r with modifier := none }

theorem Scales.trans {r r' r'' : Relation} (h : r.Scales r') (h' : r'.Scales r'') :
    r.Scales r'' := by
  rcases h with rfl | ⟨hnone, rfl⟩
  · exact h'
  · rcases h' with rfl | ⟨hsome, -⟩
    · exact .inr ⟨hnone, rfl⟩
    · cases hsome

end Relation

namespace Table

/-- A name is the left side of a relation of variables, or the right side of one other than an
    intercept. -/
def Mentions (t : Table) (name : String) : Prop :=
  ∃ r ∈ t.rows, r.op.isEdge = true ∧ (r.lhs = name ∨ r.rhs = name ∧ name ≠ intercept)

/-- The rows that complete a table. -/
inductive Added (t : Table) : Relation → Prop
  | variance {name : String} : t.Mentions name →
      Added t { lhs := name, op := .covariance, rhs := name }
  | intercept {name : String} : t.Mentions name →
      Added t { lhs := name, op := .regression, rhs := StructuralModel.intercept }
  | covariance {a b : String} : t.Mentions a → t.Mentions b → t.isExogenous b = true →
      Added t { lhs := a, op := .covariance, rhs := b }

/-- Every row of `t'` is one of `t`, or an added one, perhaps fixed. -/
def Completes (t t' : Table) : Prop :=
  ∀ r' ∈ t'.rows, ∃ r, (r ∈ t.rows ∨ t.Added r) ∧ r.Scales r'

/-- The variables are the names that a table mentions. -/
theorem mem_variableNames {t : Table} {name : String} :
    name ∈ t.variableNames ↔ t.Mentions name ∧ name ≠ intercept := by
  rw [variableNames, List.mem_eraseDups, List.mem_filter, List.mem_append, bne_iff_ne]
  constructor
  · rintro ⟨h | h, hne⟩
    · obtain ⟨r, hr, rfl⟩ := List.mem_map.1 h
      obtain ⟨hr, hedge⟩ := List.mem_filter.1 hr
      exact ⟨⟨r, hr, hedge, .inl rfl⟩, hne⟩
    · obtain ⟨r, hr, rfl⟩ := List.mem_map.1 h
      obtain ⟨hr, hedge⟩ := List.mem_filter.1 hr
      exact ⟨⟨r, hr, hedge, .inr ⟨rfl, hne⟩⟩, hne⟩
  · rintro ⟨⟨r, hr, hedge, rfl | ⟨rfl, -⟩⟩, hne⟩
    · exact ⟨.inl (List.mem_map_of_mem (List.mem_filter.2 ⟨hr, hedge⟩)), hne⟩
    · exact ⟨.inr (List.mem_map_of_mem (List.mem_filter.2 ⟨hr, hedge⟩)), hne⟩

theorem mentions_of_mem_latents {t : Table} {name : String} (h : name ∈ t.latents) :
    t.Mentions name := by
  rw [latents, List.mem_eraseDups] at h
  obtain ⟨r, hr, rfl⟩ := List.mem_map.1 h
  obtain ⟨hr, hop⟩ := List.mem_filter.1 hr
  exact ⟨r, hr, by rw [beq_iff_eq.1 hop]; rfl, .inl rfl⟩

theorem mentions_of_mem_manifests {t : Table} {name : String}
    (h : name ∈ t.classify.manifests) : t.Mentions name :=
  (mem_variableNames.1 (List.mem_filter.1 h).1).1

/-! ## Appended rows -/

theorem any_mono {t t' : Table} (h : t.rows <+: t'.rows) {p : Relation → Bool}
    (hp : t.rows.any p = true) : t'.rows.any p = true := by
  obtain ⟨added, hadded⟩ := h
  rw [← hadded, List.any_append, hp, Bool.true_or]

theorem any_eq_false_iff {t : Table} {p : Relation → Bool} :
    (!t.rows.any p) = true ↔ ∀ r ∈ t.rows, p r = false := by
  simp only [Bool.not_eq_true', List.any_eq_false, Bool.not_eq_true]

/-- What nothing predicts in a longer table, nothing predicts in the table. -/
theorem isExogenous_anti {t t' : Table} (h : t.rows <+: t'.rows) {name : String}
    (hname : t'.isExogenous name = true) : t.isExogenous name = true := by
  cases hp : t.rows.any (Relation.predicts name) with
  | false => rw [isExogenous, hp]; rfl
  | true =>
    rw [isExogenous, any_mono h hp] at hname
    cases hname

/-- The rows of a table go on as they are, and behind them there are added ones. -/
def Extends (t t' : Table) : Prop :=
  ∃ added : List Relation, t'.rows = t.rows ++ added ∧ ∀ r ∈ added, t.Added r

theorem Extends.refl (t : Table) : t.Extends t :=
  ⟨[], (List.append_nil _).symm, fun _ h => (by cases h)⟩

theorem Extends.append {t t' : Table} (h : t.Extends t') {rows : List Relation}
    (hrows : ∀ r ∈ rows, t.Added r) : t.Extends (t'.append rows) := by
  obtain ⟨added, hadded, hall⟩ := h
  refine ⟨added ++ rows, by rw [Table.append, hadded, List.append_assoc], fun r hr => ?_⟩
  rcases List.mem_append.1 hr with hr | hr
  · exact hall r hr
  · exact hrows r hr

theorem Extends.prefix_rows {t t' : Table} (h : t.Extends t') : t.rows <+: t'.rows := by
  obtain ⟨added, hadded, -⟩ := h
  exact ⟨added, hadded.symm⟩

theorem Extends.addVariances (t : Table) : t.Extends t.addVariances := by
  refine (Extends.refl t).append fun r hr => ?_
  obtain ⟨name, hname, rfl⟩ := List.mem_map.1 hr
  exact .variance ((mem_variableNames.1 (List.mem_filter.1 hname).1).1)

theorem Extends.addIntercepts {t t' : Table} (h : t.Extends t') {names : List String}
    (hnames : ∀ name ∈ names, t.Mentions name) : t.Extends (t'.addIntercepts names) := by
  refine h.append fun r hr => ?_
  obtain ⟨name, hname, rfl⟩ := List.mem_map.1 hr
  exact .intercept (hnames name (List.mem_filter.1 hname).1)

/-- Both members of a pair are members of the list. -/
theorem mem_of_mem_pairs {α : Type} {l : List α} {a b : α} (h : (a, b) ∈ pairs l) :
    a ∈ l ∧ b ∈ l := by
  induction l with
  | nil => cases h
  | cons x l ih =>
    rcases List.mem_append.1 h with h | h
    · obtain ⟨y, hy, heq⟩ := List.mem_map.1 h
      cases heq
      exact ⟨List.mem_cons_self, List.mem_cons_of_mem _ hy⟩
    · exact ⟨List.mem_cons_of_mem _ (ih h).1, List.mem_cons_of_mem _ (ih h).2⟩

theorem Extends.addCovariances {t t' : Table} (h : t.Extends t') {names : List String}
    (hnames : ∀ name ∈ names, t.Mentions name) : t.Extends (t'.addCovariances names) := by
  refine h.append fun r hr => ?_
  obtain ⟨⟨a, b⟩, hab, rfl⟩ := List.mem_map.1 hr
  obtain ⟨ha, hb⟩ := mem_of_mem_pairs (List.mem_filter.1 hab).1
  obtain ⟨ha, -⟩ := List.mem_filter.1 ha
  obtain ⟨hb, hexogenous⟩ := List.mem_filter.1 hb
  exact .covariance (hnames a ha) (hnames b hb) (isExogenous_anti h.prefix_rows hexogenous)

theorem Extends.complete (o : Options) (t : Table) : t.Extends (t.complete o t.classify) := by
  have applyIf (on : Bool) {step : Table → Table} {t' : Table} (h : t.Extends t')
      (hstep : t.Extends (step t')) : t.Extends (applyIf on step t') := by
    cases on
    · exact h
    · exact hstep
  -- The steps that are on append their rows in turn.
  have h₁ := applyIf o.addVariances (.refl t) (.addVariances t)
  have h₂ := applyIf o.addIntercepts h₁
    (h₁.addIntercepts fun _ h => mentions_of_mem_manifests h)
  have h₃ := applyIf o.addExogenousLatentCovariances h₂
    (h₂.addCovariances fun _ h => mentions_of_mem_latents h)
  exact applyIf _ h₃ (h₃.addCovariances fun _ h => mentions_of_mem_manifests h)

/-! ## Fixed rows -/

/-- Some rows of a table that have no modifier are fixed, one after the other. -/
inductive Scales (t : Table) : Table → Prop
  | refl : Scales t t
  | fixFirst {t' : Table} {p : Relation → Bool} : Scales t t' →
      (∀ r, t'.rows.find? p = some r → r.modifier = none) → Scales t (t'.fixFirst p)

theorem Scales.trans {t t' t'' : Table} (h : t.Scales t') (h' : t'.Scales t'') :
    t.Scales t'' := by
  induction h' with
  | refl => exact h
  | fixFirst _ hnone ih => exact ih.fixFirst hnone

/-- If the first row with a property has no modifier, fixing it is all that fixing the first row
    does. -/
theorem scales_of_mem_fixFirst {t : Table} {p : Relation → Bool}
    (h : ∀ r, t.rows.find? p = some r → r.modifier = none) {r' : Relation}
    (hr' : r' ∈ (t.fixFirst p).rows) : ∃ r ∈ t.rows, r.Scales r' := by
  obtain ⟨rows⟩ := t
  change r' ∈ setFirstModifier.go p (some (.fixed scalingValue)) rows at hr'
  induction rows with
  | nil => cases hr'
  | cons r rows ih =>
    rw [setFirstModifier.go] at hr'
    split at hr'
    case isTrue hp =>
      rcases List.mem_cons.1 hr' with rfl | hr'
      · exact ⟨r, List.mem_cons_self, .inr ⟨h r (List.find?_cons_of_pos hp), rfl⟩⟩
      · exact ⟨r', List.mem_cons_of_mem _ hr', .inl rfl⟩
    case isFalse hp =>
      rcases List.mem_cons.1 hr' with rfl | hr'
      · exact ⟨r', List.mem_cons_self, .inl rfl⟩
      · obtain ⟨r, hr, hscales⟩ := ih (fun r hr => h r (by rwa [List.find?_cons_of_neg hp])) hr'
        exact ⟨r, List.mem_cons_of_mem _ hr, hscales⟩

theorem map_unmodified_fixFirst (t : Table) (p : Relation → Bool) :
    (t.fixFirst p).rows.map Relation.unmodified = t.rows.map Relation.unmodified := by
  obtain ⟨rows⟩ := t
  rw [fixFirst, setFirstModifier]
  induction rows with
  | nil => rfl
  | cons r rows ih =>
    rw [setFirstModifier.go]
    split
    case isTrue => rfl
    case isFalse => exact congrArg (r.unmodified :: ·) ih

/-- Every row is as it was, or it is fixed. -/
theorem Scales.exists_of_mem {t t' : Table} (h : t.Scales t') {r' : Relation}
    (hr' : r' ∈ t'.rows) : ∃ r ∈ t.rows, r.Scales r' := by
  induction h generalizing r' with
  | refl => exact ⟨r', hr', .inl rfl⟩
  | fixFirst _ hnone ih =>
    obtain ⟨r, hr, hscales⟩ := scales_of_mem_fixFirst hnone hr'
    obtain ⟨r₀, hr₀, hscales₀⟩ := ih hr
    exact ⟨r₀, hr₀, hscales₀.trans hscales⟩

/-- But for the modifiers nothing changes. -/
theorem Scales.map_unmodified {t t' : Table} (h : t.Scales t') :
    t'.rows.map Relation.unmodified = t.rows.map Relation.unmodified := by
  induction h with
  | refl => rfl
  | fixFirst _ _ ih => rw [map_unmodified_fixFirst, ih]

/-- What scaling the variance of a latent variable does: nothing, or it fixes the variance. -/
theorem scaleLatentVariance_cases (t : Table) (latent : String) :
    (t.scaleLatentVariance latent).1 = t ∨
      (∃ r, t.rows.find? (Relation.isVarianceOf latent) = some r ∧ r.modifier = none) ∧
        (t.scaleLatentVariance latent).1 = t.fixFirst (Relation.isVarianceOf latent) := by
  rw [scaleLatentVariance]
  split
  case h_1 => exact .inl rfl
  case h_2 r hr =>
    split
    case h_1 hnone => exact .inr ⟨⟨r, hr, hnone⟩, rfl⟩
    case h_2 => exact .inl rfl
    case h_3 => exact .inl rfl

/-- What scaling the loadings of a latent variable does: nothing, or it fixes the first one without
    modifier. -/
theorem scaleLoading_cases (t : Table) (latent : String) :
    (t.scaleLoading latent).1 = t ∨
      (t.rows.find? fun r => r.isLoadingOf latent && r.isFixed) = none ∧
      (t.rows.any fun r => r.isLoadingOf latent && r.modifier.isNone) = true ∧
        (t.scaleLoading latent).1 =
          t.fixFirst fun r => r.isLoadingOf latent && r.modifier.isNone := by
  rw [scaleLoading]
  split
  case h_1 => exact .inl rfl
  case h_2 hnone =>
    split
    case isTrue hany => exact .inr ⟨hnone, hany, rfl⟩
    case isFalse => exact .inl rfl

theorem Scales.scaleLatentVariance (t : Table) (latent : String) :
    t.Scales (t.scaleLatentVariance latent).1 := by
  rcases t.scaleLatentVariance_cases latent with h | ⟨⟨r, hr, hnone⟩, h⟩
  · rw [h]
    exact .refl
  · rw [h]
    exact .fixFirst .refl fun r' hr' => by rwa [Option.some.inj (hr'.symm.trans hr)]

theorem Scales.scaleLoading (t : Table) (latent : String) :
    t.Scales (t.scaleLoading latent).1 := by
  rcases t.scaleLoading_cases latent with h | ⟨-, -, h⟩
  · rw [h]
    exact .refl
  · rw [h]
    refine .fixFirst .refl fun r hr => ?_
    have := List.find?_some hr
    rw [Bool.and_eq_true, Option.isNone_iff_eq_none] at this
    exact this.2

theorem Scales.scaleEach {scale : Table → String → Table × List Finding}
    (h : ∀ (t : Table) latent, t.Scales (scale t latent).1) (t : Table) (latents : List String) :
    t.Scales (Table.scaleEach scale t latents).1 := by
  induction latents generalizing t with
  | nil => exact .refl
  | cons latent latents ih => exact (h t latent).trans (ih _)

/-- Identification scales a table. -/
theorem Scales.identify (o : Options) (latents : List String) (t : Table) :
    t.Scales (t.identify o latents).1 := by
  have hvariances := Scales.scaleEach .scaleLatentVariance t latents
  have hloadings (t : Table) := Scales.scaleEach .scaleLoading t latents
  rw [Table.identify]
  cases o.scaleLatentVariances <;> cases o.scaleLoadings
  · exact .refl
  · exact hloadings t
  · exact hvariances
  · exact hvariances.trans (hloadings _)

/-! ## Compiled tables -/

/-- Every row of a compiled table is a row of the table that was read, or an added one, perhaps
    fixed. -/
theorem completes_compiled (o : Options) (m : Model) :
    m.table.Completes (m.compiled o).table := by
  intro r' hr'
  obtain ⟨r, hr, hscales⟩ := (Scales.identify o m.table.classify.latents _).exists_of_mem hr'
  obtain ⟨added, hadded, hall⟩ := Extends.complete o m.table
  rw [hadded] at hr
  rcases List.mem_append.1 hr with hr | hr
  · exact ⟨r, .inl hr, hscales⟩
  · exact ⟨r, .inr (hall r hr), hscales⟩

/-- The left sides of the table that was read are still the first ones. -/
theorem map_lhs_compiled (o : Options) (m : Model) :
    m.table.rows.map Relation.lhs <+: (m.compiled o).table.rows.map Relation.lhs := by
  have hlhs : Relation.lhs ∘ Relation.unmodified = Relation.lhs := rfl
  have hscales := Scales.identify o m.table.classify.latents
    (m.table.complete o m.table.classify)
  obtain ⟨added, hadded, -⟩ := Extends.complete o m.table
  -- Identification changes modifiers only, and completion appends.
  have hmap := congrArg (List.map Relation.lhs) hscales.map_unmodified
  rw [List.map_map, List.map_map, hlhs, hadded, List.map_append] at hmap
  exact ⟨added.map Relation.lhs, hmap.symm⟩

/-- Without rows nothing is completed. -/
theorem Completes.rows_eq_nil {t t' : Table} (h : t.Completes t') (hnil : t.rows = []) :
    t'.rows = [] := by
  have hno {name : String} (hname : t.Mentions name) : False := by
    obtain ⟨r, hr, -⟩ := hname
    rw [hnil] at hr
    cases hr
  refine List.eq_nil_iff_forall_not_mem.2 fun r hr => ?_
  obtain ⟨r₀, hr₀ | hr₀, -⟩ := h r hr
  · rw [hnil] at hr₀
    cases hr₀
  · cases hr₀ with
    | variance h => exact hno h
    | intercept h => exact hno h
    | covariance h => exact hno h

end Table

/-- What is compiled is a model that was read. -/
theorem compile_eq_ok_iff {o : Options} {source : String} {m : CompiledModel} :
    compile o source = .ok m ↔ ∃ p, Model.parse source = .ok p ∧ p.compiled o = m := by
  rw [compile]
  cases Model.parse source with
  | error => simp [Except.map]
  | ok p => simp [Except.map]

end StructuralModel
