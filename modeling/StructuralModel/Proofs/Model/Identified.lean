import StructuralModel.Proofs.Model.Complete

/-!
# Identified tables

A table is *identified* for options if no step of identification that is on has a row to fix
(`Table.Identified`): the first variance of each latent variable has a modifier, or some loading of
it is fixed or all of them have modifiers. What is fixed or labelled stays so while other rows are
fixed, so that the steps for one latent variable do not undo those for another.

* `Identified.identify_eq`: identifying an identified table changes nothing;
* `identified_identify`: a table is identified when it was identified;
* `Identified.of_unplaced`: the places of rows do not matter.
-/

namespace StructuralModel.Table

variable {t t' : Table} {o : Options} {latent : String}

/-- The first variance of a latent variable, if there is one, has a modifier. -/
def VarianceIsSet (t : Table) (latent : String) : Prop :=
  ∀ r, t.rows.find? (Relation.isVarianceOf latent) = some r → r.modifier ≠ none

/-- Some loading of a latent variable is fixed, or all of them have modifiers. -/
def LoadingIsSet (t : Table) (latent : String) : Prop :=
  (∃ r ∈ t.rows, r.isLoadingOf latent = true ∧ r.isFixed = true) ∨
    ∀ r ∈ t.rows, r.isLoadingOf latent = true → r.modifier ≠ none

/-- No step of identification has a row to fix. -/
structure Identified (o : Options) (t : Table) : Prop where
  variances : o.scaleLatentVariances = true → ∀ latent ∈ t.latents, t.VarianceIsSet latent
  loadings : o.scaleLoadings = true → ∀ latent ∈ t.latents, t.LoadingIsSet latent

/-! ## Identified tables are left alone -/

theorem scaleLatentVariance_eq_self (h : t.VarianceIsSet latent) :
    (t.scaleLatentVariance latent).1 = t := by
  rcases t.scaleLatentVariance_cases latent with heq | ⟨⟨r, hr, hnone⟩, -⟩
  · exact heq
  · exact absurd hnone (h r hr)

theorem scaleLoading_eq_self (h : t.LoadingIsSet latent) : (t.scaleLoading latent).1 = t := by
  rcases t.scaleLoading_cases latent with heq | ⟨hfixed, hany, -⟩
  · exact heq
  · rcases h with ⟨r, hr, hloading, hfix⟩ | hall
    · have := List.find?_eq_none.1 hfixed r hr
      rw [hloading, hfix] at this
      exact absurd rfl this
    · obtain ⟨r, hr, hrow⟩ := List.any_eq_true.1 hany
      rw [Bool.and_eq_true, Option.isNone_iff_eq_none] at hrow
      exact absurd hrow.2 (hall r hr hrow.1)

theorem scaleEach_eq_self {scale : Table → String → Table × List Finding} {latents : List String}
    (h : ∀ latent ∈ latents, (scale t latent).1 = t) : (scaleEach scale t latents).1 = t := by
  induction latents with
  | nil => rfl
  | cons latent latents ih =>
    have hfirst : (scale t latent).1 = t := h latent List.mem_cons_self
    have hrest := ih fun latent hlatent => h latent (List.mem_cons_of_mem _ hlatent)
    show (scaleEach scale (scale t latent).1 latents).1 = t
    rw [hfirst, hrest]

/-- Identifying an identified table changes nothing. -/
theorem Identified.identify_eq (h : t.Identified o) : (t.identify o t.latents).1 = t := by
  have hvariances (on : o.scaleLatentVariances = true) : (t.scaleLatentVariances t.latents).1 = t :=
    scaleEach_eq_self fun latent hlatent =>
      scaleLatentVariance_eq_self (h.variances on latent hlatent)
  have hloadings (on : o.scaleLoadings = true) : (t.scaleLoadings t.latents).1 = t :=
    scaleEach_eq_self fun latent hlatent => scaleLoading_eq_self (h.loadings on latent hlatent)
  rw [identify]
  cases on : o.scaleLatentVariances <;> cases on' : o.scaleLoadings
  · rfl
  · exact hloadings on'
  · exact hvariances on
  · show ((t.scaleLatentVariances t.latents).1.scaleLoadings t.latents).1 = t
    rw [hvariances on, hloadings on']

/-! ## Fixing rows -/

/-- What is found in a table whose first row with a property was fixed is what was found before,
    perhaps fixed, if modifiers do not matter to what is looked for. -/
theorem find?_fixFirst {p q : Relation → Bool} (hq : q ∘ Relation.unmodified = q) (t : Table) :
    (t.fixFirst p).rows.find? q = t.rows.find? q ∨
      (t.fixFirst p).rows.find? q =
        (t.rows.find? q).map fun r => { r with modifier := some (.fixed scalingValue) } := by
  obtain ⟨rows⟩ := t
  -- The property cannot tell a row from the same row with another modifier.
  have hmod (r : Relation) (m : Option Modifier) : q { r with modifier := m } = q r :=
    (congrFun hq { r with modifier := m }).symm.trans (congrFun hq r)
  show (setFirstModifier.go p _ rows).find? q = _ ∨ (setFirstModifier.go p _ rows).find? q = _
  induction rows with
  | nil => exact .inl rfl
  | cons r rows ih =>
    rw [setFirstModifier.go]
    split
    case isTrue =>
      rw [List.find?_cons, List.find?_cons, hmod]
      cases q r with
      | true => exact .inr rfl
      | false => exact .inl rfl
    case isFalse =>
      rw [List.find?_cons, List.find?_cons]
      cases q r with
      | true => exact .inl rfl
      | false => exact ih

/-- The first row with a property is fixed if modifiers do not matter to the property. -/
theorem find?_fixFirst_self {p : Relation → Bool} (hp : p ∘ Relation.unmodified = p) (t : Table) :
    ∀ r, (t.fixFirst p).rows.find? p = some r → r.modifier = some (.fixed scalingValue) := by
  obtain ⟨rows⟩ := t
  have hmod (r : Relation) (m : Option Modifier) : p { r with modifier := m } = p r :=
    (congrFun hp { r with modifier := m }).symm.trans (congrFun hp r)
  intro r hr
  change (setFirstModifier.go p _ rows).find? p = some r at hr
  induction rows with
  | nil => cases hr
  | cons r₀ rows ih =>
    rw [setFirstModifier.go] at hr
    split at hr
    case isTrue h =>
      rw [List.find?_cons_of_pos (by rwa [hmod])] at hr
      rw [← Option.some.inj hr]
    case isFalse h =>
      rw [List.find?_cons_of_neg h] at hr
      exact ih hr

/-- The first row with a property is there again, fixed. -/
theorem exists_mem_fixFirst {p : Relation → Bool} (h : t.rows.any p = true) :
    ∃ r, p r = true ∧ { r with modifier := some (.fixed scalingValue) } ∈ (t.fixFirst p).rows := by
  obtain ⟨rows⟩ := t
  change rows.any p = true at h
  show ∃ r, p r = true ∧ _ ∈ setFirstModifier.go p _ rows
  induction rows with
  | nil => cases h
  | cons r rows ih =>
    rw [setFirstModifier.go]
    split
    case isTrue hp => exact ⟨r, hp, List.mem_cons_self⟩
    case isFalse hp =>
      rw [List.any_cons, Bool.eq_false_iff.2 hp, Bool.false_or] at h
      obtain ⟨r', hp', hmem⟩ := ih h
      exact ⟨r', hp', List.mem_cons_of_mem _ hmem⟩

/-- Rows that have a modifier stay. -/
theorem mem_fixFirst {p : Relation → Bool}
    (hnone : ∀ r, t.rows.find? p = some r → r.modifier = none) {r : Relation} (hr : r ∈ t.rows)
    (hmod : r.modifier ≠ none) : r ∈ (t.fixFirst p).rows := by
  obtain ⟨rows⟩ := t
  change r ∈ setFirstModifier.go p _ rows
  induction rows with
  | nil => cases hr
  | cons r₀ rows ih =>
    rw [setFirstModifier.go]
    split
    case isTrue hp =>
      rcases List.mem_cons.1 hr with rfl | hr
      · exact absurd (hnone r (List.find?_cons_of_pos hp)) hmod
      · exact List.mem_cons_of_mem _ hr
    case isFalse hp =>
      rcases List.mem_cons.1 hr with rfl | hr
      · exact List.mem_cons_self
      · refine List.mem_cons_of_mem _ (ih (fun r hr => hnone r ?_) hr)
        rwa [List.find?_cons_of_neg hp]

/-- Fixing rows does not change the outline of a table. -/
theorem Scales.outline_eq (h : t.Scales t') : t'.outline = t.outline := by
  have := congrArg (List.map Relation.outline) h.map_unmodified
  rw [List.map_map, List.map_map] at this
  exact congrArg Table.mk this

theorem Scales.mem (h : t.Scales t') {r : Relation} (hr : r ∈ t.rows) (hmod : r.modifier ≠ none) :
    r ∈ t'.rows := by
  induction h with
  | refl => exact hr
  | fixFirst _ hnone ih => exact mem_fixFirst hnone ih hmod

/-- A variance that is set stays set while rows are fixed. -/
theorem Scales.varianceIsSet (h : t.Scales t') (hset : t.VarianceIsSet latent) :
    t'.VarianceIsSet latent := by
  induction h with
  | refl => exact hset
  | @fixFirst t' p _ _ ih =>
    intro r hr
    rcases find?_fixFirst (p := p) (q := Relation.isVarianceOf latent) rfl t' with heq | heq
    · exact ih r (heq ▸ hr)
    · rw [heq] at hr
      obtain ⟨r, -, rfl⟩ := Option.map_eq_some_iff.1 hr
      exact Option.some_ne_none _

/-- A loading that is set stays set while rows are fixed. -/
theorem Scales.loadingIsSet (h : t.Scales t') (hset : t.LoadingIsSet latent) :
    t'.LoadingIsSet latent := by
  rcases hset with ⟨r, hr, hloading, hfixed⟩ | hall
  · refine .inl ⟨r, h.mem hr fun hnone => ?_, hloading, hfixed⟩
    rw [Relation.isFixed, hnone] at hfixed
    cases hfixed
  -- A row that has changed has a modifier now.
  · refine .inr fun r' hr' hloading => ?_
    obtain ⟨r, hr, rfl | ⟨-, rfl⟩⟩ := h.exists_of_mem hr'
    · exact hall r' hr hloading
    · exact Option.some_ne_none _

/-! ## Tables are identified when they were identified -/

theorem varianceIsSet_scaleLatentVariance (t : Table) (latent : String) :
    (t.scaleLatentVariance latent).1.VarianceIsSet latent := by
  rw [scaleLatentVariance]
  split
  case h_1 hnone =>
    intro r hr
    rw [hnone] at hr
    cases hr
  case h_2 r hr =>
    have hself (m : Modifier) (hm : r.modifier = some m) : t.VarianceIsSet latent := by
      intro r' hr'
      rw [← Option.some.inj (hr.symm.trans hr'), hm]
      exact Option.some_ne_none m
    split
    case h_1 =>
      intro r' hr'
      rw [find?_fixFirst_self rfl t r' hr']
      exact Option.some_ne_none _
    case h_2 hm => exact hself _ hm
    case h_3 hm => exact hself _ hm

theorem loadingIsSet_scaleLoading (t : Table) (latent : String) :
    (t.scaleLoading latent).1.LoadingIsSet latent := by
  rw [scaleLoading]
  split
  case h_1 r hr =>
    have hrow := List.find?_some hr
    rw [Bool.and_eq_true] at hrow
    exact .inl ⟨r, List.mem_of_find?_eq_some hr, hrow⟩
  case h_2 =>
    split
    case isTrue hany =>
      obtain ⟨r, hrow, hmem⟩ := exists_mem_fixFirst hany
      rw [Bool.and_eq_true] at hrow
      exact .inl ⟨_, hmem, hrow.1, rfl⟩
    case isFalse hany =>
      refine .inr fun r hr hloading hnone => hany (List.any_eq_true.2 ⟨r, hr, ?_⟩)
      rw [hloading, hnone]
      rfl

/-- Each latent variable is set by its own step, and what is set stays so. -/
theorem scaleEach_isSet {scale : Table → String → Table × List Finding}
    (IsSet : Table → String → Prop) (hscales : ∀ (t : Table) latent, t.Scales (scale t latent).1)
    (hkeep : ∀ {t t' : Table} {latent}, t.Scales t' → IsSet t latent → IsSet t' latent)
    (hset : ∀ t latent, IsSet (scale t latent).1 latent) (t : Table) (latents : List String) :
    ∀ latent ∈ latents, IsSet (scaleEach scale t latents).1 latent := by
  -- By induction along the variables: the steps for later ones keep what the first one has set.
  induction latents generalizing t with
  | nil => exact fun _ h => (by cases h)
  | cons first latents ih =>
    intro latent hlatent
    rcases List.mem_cons.1 hlatent with rfl | hlatent
    · exact hkeep (.scaleEach hscales _ latents) (hset t latent)
    · exact ih _ latent hlatent

theorem varianceIsSet_scaleLatentVariances (t : Table) (latents : List String) :
    ∀ latent ∈ latents, (t.scaleLatentVariances latents).1.VarianceIsSet latent :=
  scaleEach_isSet VarianceIsSet .scaleLatentVariance Scales.varianceIsSet
    varianceIsSet_scaleLatentVariance t latents

theorem loadingIsSet_scaleLoadings (t : Table) (latents : List String) :
    ∀ latent ∈ latents, (t.scaleLoadings latents).1.LoadingIsSet latent :=
  scaleEach_isSet LoadingIsSet .scaleLoading Scales.loadingIsSet loadingIsSet_scaleLoading t latents

/-- A table is identified when it was identified. -/
theorem identified_identify (o : Options) (t : Table) :
    (t.identify o t.latents).1.Identified o := by
  -- Fixing rows makes no loadings, so the same variables are asked about.
  have hlatents : (t.identify o t.latents).1.latents = t.latents := by
    rw [← latents_outline, (Scales.identify o t.latents t).outline_eq, latents_outline]
  have hvariances := t.varianceIsSet_scaleLatentVariances t.latents
  refine ⟨fun on latent hlatent => ?_, fun on latent hlatent => ?_⟩
  · rw [hlatents] at hlatent
    rw [identify, on]
    cases o.scaleLoadings with
    | false => exact hvariances latent hlatent
    | true =>
      exact (Scales.scaleEach .scaleLoading _ t.latents).varianceIsSet (hvariances latent hlatent)
  · rw [hlatents] at hlatent
    rw [identify, on]
    exact loadingIsSet_scaleLoadings _ t.latents latent hlatent

/-! ## Places -/

theorem outline_unplaced (t : Table) : t.unplaced.outline = t.outline := by
  rw [outline, outline, unplaced, List.map_map]
  rfl

theorem varianceIsSet_unplaced : t.unplaced.VarianceIsSet latent ↔ t.VarianceIsSet latent := by
  rw [VarianceIsSet, unplaced, List.find?_map]
  constructor
  · intro h r hr
    exact h r.unplaced (Option.map_eq_some_iff.2 ⟨r, hr, rfl⟩)
  · intro h r hr
    obtain ⟨r, hr', rfl⟩ := Option.map_eq_some_iff.1 hr
    exact h r hr'

theorem loadingIsSet_unplaced : t.unplaced.LoadingIsSet latent ↔ t.LoadingIsSet latent := by
  refine or_congr ⟨?_, ?_⟩ ⟨fun h r hr => h r.unplaced (List.mem_map_of_mem hr), ?_⟩
  · rintro ⟨r, hr, hrow⟩
    obtain ⟨r, hr', rfl⟩ := List.mem_map.1 hr
    exact ⟨r, hr', hrow⟩
  · rintro ⟨r, hr, hrow⟩
    exact ⟨r.unplaced, List.mem_map_of_mem hr, hrow⟩
  · intro h r hr
    obtain ⟨r, hr', rfl⟩ := List.mem_map.1 hr
    exact h r hr'

/-- Whether a table is identified does not depend on the places of its rows. -/
theorem Identified.of_unplaced (h : t.Identified o) (heq : t'.unplaced = t.unplaced) :
    t'.Identified o := by
  have hlatents : t'.latents = t.latents := by
    rw [← latents_outline, ← outline_unplaced, heq, outline_unplaced, latents_outline]
  refine ⟨fun on latent hlatent => ?_, fun on latent hlatent => ?_⟩
  · rw [← varianceIsSet_unplaced, heq, varianceIsSet_unplaced]
    exact h.variances on latent (hlatents ▸ hlatent)
  · rw [← loadingIsSet_unplaced, heq, loadingIsSet_unplaced]
    exact h.loadings on latent (hlatents ▸ hlatent)

end StructuralModel.Table
