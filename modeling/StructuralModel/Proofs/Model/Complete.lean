import StructuralModel.Proofs.Model.Count

/-!
# Complete tables

A table is *complete* for options if no step of completion that is on has a row to append
(`Table.Complete`). A completed table is, although its own variables, and not those of the table
before, are asked about now: the rows that were appended are no loadings and name no new variables.

* `Complete.complete_eq`: completing a complete table changes nothing;
* `complete_complete`: a completed table is complete;
* `Complete.of_outline`: only the sides and the operators of the rows matter.
-/

namespace StructuralModel

/-- A row without its parameter: its sides and its operator. -/
def Relation.outline (r : Relation) : Relation :=
  { lhs := r.lhs, op := r.op, rhs := r.rhs }

/-- Running a step that may be off changes nothing if the step changes nothing. -/
theorem applyIf_eq_self {α : Type} {on : Bool} {step : α → α} {a : α}
    (h : on = true → step a = a) : applyIf on step a = a := by
  cases on with
  | false => rfl
  | true => exact h rfl

namespace Table

variable {t t' : Table} {o : Options}

/-- Any two of the variables `names` that nothing predicts are joined by a covariance. -/
def Covary (names : List String) (t : Table) : Prop :=
  ∀ a ∈ names, ∀ b ∈ names, a ≠ b → t.isExogenous a = true → t.isExogenous b = true →
    t.rows.any (Relation.connects a b) = true

/-- No step of completion has a row to append. -/
structure Complete (o : Options) (t : Table) : Prop where
  variances : o.addVariances = true → ∀ name ∈ t.variableNames,
    t.rows.any (Relation.isVarianceOf name) = true
  intercepts : o.addIntercepts = true → ∀ name ∈ t.classify.manifests,
    t.rows.any (Relation.isInterceptOf name) = true
  latentCovariances : o.addExogenousLatentCovariances = true → t.Covary t.classify.latents
  manifestCovariances : o.addExogenousManifestCovariances = true → t.Covary t.classify.manifests

/-! ## Complete tables are not completed further -/

theorem append_nil (t : Table) : t.append [] = t := by
  rw [append, List.append_nil]

/-- A filter that drops what is there already leaves nothing of a list that is all there. -/
theorem filter_not_eq_nil {α : Type} {l : List α} {p : α → Bool} (h : ∀ a ∈ l, p a = true) :
    (l.filter fun a => !p a) = [] := by
  refine List.filter_eq_nil_iff.2 fun a ha => ?_
  rw [h a ha]
  exact Bool.false_ne_true

theorem addVariances_eq_self (h : ∀ name ∈ t.variableNames,
    t.rows.any (Relation.isVarianceOf name) = true) : t.addVariances = t := by
  rw [addVariances, missingVariances, filter_not_eq_nil h, List.map_nil, append_nil]

theorem addIntercepts_eq_self {names : List String}
    (h : ∀ name ∈ names, t.rows.any (Relation.isInterceptOf name) = true) :
    t.addIntercepts names = t := by
  rw [addIntercepts, missingIntercepts, filter_not_eq_nil h, List.map_nil, append_nil]

/-- The two members of a pair differ if the list has no repetitions. -/
theorem ne_of_mem_pairs {α : Type} {l : List α} (h : l.Nodup) {a b : α} (hab : (a, b) ∈ pairs l) :
    a ≠ b := by
  induction l with
  | nil => cases hab
  | cons x l ih =>
    obtain ⟨hx, hl⟩ := List.nodup_cons.1 h
    rcases List.mem_append.1 hab with hab | hab
    · obtain ⟨y, hy, heq⟩ := List.mem_map.1 hab
      cases heq
      rintro rfl
      exact hx hy
    · exact ih hl hab

theorem addCovariances_eq_self {names : List String} (hnames : names.Nodup) (h : t.Covary names) :
    t.addCovariances names = t := by
  -- A list without repetitions has no pair of a variable with itself.
  have hall : ∀ p ∈ pairs (names.filter t.isExogenous),
      t.rows.any (Relation.connects p.1 p.2) = true := by
    rintro ⟨a, b⟩ hab
    obtain ⟨ha, hb⟩ := mem_of_mem_pairs hab
    obtain ⟨ha, hxa⟩ := List.mem_filter.1 ha
    obtain ⟨hb, hxb⟩ := List.mem_filter.1 hb
    exact h a ha b hb (ne_of_mem_pairs (List.Pairwise.filter _ hnames) hab) hxa hxb
  have hnil : t.missingCovariances names = [] := List.map_eq_nil_iff.2 (filter_not_eq_nil hall)
  rw [addCovariances, hnil, append_nil]

theorem nodup_latents (t : Table) : t.classify.latents.Nodup :=
  nodup_eraseDups _

theorem nodup_manifests (t : Table) : t.classify.manifests.Nodup :=
  List.Pairwise.filter _ (nodup_eraseDups _)

/-- No variable is latent and manifest. -/
theorem not_mem_manifests {name : String} (h : name ∈ t.classify.latents) :
    name ∉ t.classify.manifests := by
  intro hmanifest
  have hcontains : t.latents.contains name = true := List.contains_iff_mem.2 h
  have hnot := (List.mem_filter.1 hmanifest).2
  rw [hcontains] at hnot
  cases hnot

/-- Completing a complete table changes nothing. -/
theorem Complete.complete_eq (h : t.Complete o) : t.complete o t.classify = t := by
  have h₁ : applyIf o.addVariances addVariances t = t :=
    applyIf_eq_self fun on => addVariances_eq_self (h.variances on)
  have h₂ : applyIf o.addIntercepts (addIntercepts t.classify.manifests) t = t :=
    applyIf_eq_self fun on => addIntercepts_eq_self (h.intercepts on)
  have h₃ : applyIf o.addExogenousLatentCovariances (addCovariances t.classify.latents) t = t :=
    applyIf_eq_self fun on => addCovariances_eq_self t.nodup_latents (h.latentCovariances on)
  have h₄ :
      applyIf o.addExogenousManifestCovariances (addCovariances t.classify.manifests) t = t :=
    applyIf_eq_self fun on => addCovariances_eq_self t.nodup_manifests (h.manifestCovariances on)
  rw [complete, h₁, h₂, h₃, h₄]

/-! ## Completed tables are complete -/

theorem any_addVariances {name : String} (h : name ∈ t.variableNames) :
    t.addVariances.rows.any (Relation.isVarianceOf name) = true := by
  cases hrow : t.rows.any (Relation.isVarianceOf name) with
  | true => exact any_mono (List.prefix_append _ _) hrow
  | false =>
    refine List.any_eq_true.2 ⟨{ lhs := name, op := .covariance, rhs := name }, ?_, ?_⟩
    · exact List.mem_append_right _
        (List.mem_map.2 ⟨name, List.mem_filter.2 ⟨h, by rw [hrow]; rfl⟩, rfl⟩)
    · simp [Relation.isVarianceOf]

theorem any_addIntercepts {names : List String} {name : String} (h : name ∈ names) :
    (t.addIntercepts names).rows.any (Relation.isInterceptOf name) = true := by
  cases hrow : t.rows.any (Relation.isInterceptOf name) with
  | true => exact any_mono (List.prefix_append _ _) hrow
  | false =>
    refine List.any_eq_true.2 ⟨{ lhs := name, op := .regression, rhs := intercept }, ?_, ?_⟩
    · exact List.mem_append_right _
        (List.mem_map.2 ⟨name, List.mem_filter.2 ⟨h, by rw [hrow]; rfl⟩, rfl⟩)
    · simp [Relation.isInterceptOf]

/-- Two different members of a list are a pair, in one order or the other. -/
theorem mem_pairs_or {α : Type} {l : List α} {a b : α} (ha : a ∈ l) (hb : b ∈ l) (hne : a ≠ b) :
    (a, b) ∈ pairs l ∨ (b, a) ∈ pairs l := by
  induction l with
  | nil => cases ha
  | cons x l ih =>
    rw [pairs, List.mem_append, List.mem_append]
    -- The first one of the pair is the one that stands first in the list.
    rcases List.mem_cons.1 ha with rfl | ha'
    · rcases List.mem_cons.1 hb with rfl | hb'
      · exact absurd rfl hne
      · exact .inl (.inl (List.mem_map_of_mem hb'))
    · rcases List.mem_cons.1 hb with rfl | hb'
      · exact .inr (.inl (List.mem_map_of_mem ha'))
      · exact (ih ha' hb').imp .inr .inr

theorem connects_comm (a b : String) : Relation.connects a b = Relation.connects b a := by
  funext r
  rw [Relation.connects, Relation.connects, Bool.or_comm]

/-- Of the pairs that lack a covariance, each one gets it. -/
theorem any_addCovariances {names : List String} {a b : String}
    (hab : (a, b) ∈ pairs (names.filter t.isExogenous)) :
    (t.addCovariances names).rows.any (Relation.connects a b) = true := by
  cases hrow : t.rows.any (Relation.connects a b) with
  | true => exact any_mono (List.prefix_append _ _) hrow
  | false =>
    refine List.any_eq_true.2 ⟨{ lhs := a, op := .covariance, rhs := b }, ?_, ?_⟩
    · refine List.mem_append_right _ (List.mem_map.2 ⟨(a, b), List.mem_filter.2 ⟨hab, ?_⟩, rfl⟩)
      show (!t.rows.any (Relation.connects a b)) = true
      rw [hrow]
      rfl
    · simp [Relation.connects]

theorem covary_addCovariances (names : List String) (t : Table) :
    (t.addCovariances names).Covary names := by
  intro a ha b hb hne hxa hxb
  -- Nothing that is appended is taken away again, so fewer variables are exogenous now, not more.
  have exogenous {name : String} (h : (t.addCovariances names).isExogenous name = true) :
      t.isExogenous name = true := isExogenous_anti (List.prefix_append _ _) h
  rcases mem_pairs_or (List.mem_filter.2 ⟨ha, exogenous hxa⟩)
    (List.mem_filter.2 ⟨hb, exogenous hxb⟩) hne with h | h
  · exact any_addCovariances h
  · rw [connects_comm]
    exact any_addCovariances h

/-- Variables that covary still do so when rows are appended. -/
theorem Covary.mono {names : List String} (h : t.Covary names) (hrows : t.rows <+: t'.rows) :
    t'.Covary names := fun a ha b hb hne hxa hxb =>
  any_mono hrows
    (h a ha b hb hne (isExogenous_anti hrows hxa) (isExogenous_anti hrows hxb))

/-- Rows that complete a table are no loadings. -/
theorem Extends.latents_eq (h : t.Extends t') : t'.latents = t.latents := by
  obtain ⟨added, hadded, hall⟩ := h
  have hnone : added.filter (fun r => r.op == .loading) = [] := by
    refine List.filter_eq_nil_iff.2 fun r hr => ?_
    cases hall r hr <;> simp
  rw [latents, latents, hadded, List.filter_append, hnone, List.append_nil]

/-- Rows that complete a table name no new variables. -/
theorem Extends.mem_variableNames (h : t.Extends t') {name : String}
    (hname : name ∈ t'.variableNames) : name ∈ t.variableNames := by
  obtain ⟨added, hadded, hall⟩ := h
  obtain ⟨⟨r, hr, hedge, hside⟩, hne⟩ := Table.mem_variableNames.1 hname
  refine Table.mem_variableNames.2 ⟨?_, hne⟩
  rw [hadded] at hr
  rcases List.mem_append.1 hr with hr | hr
  · exact ⟨r, hr, hedge, hside⟩
  · cases hall r hr with
    | variance h =>
      rcases hside with rfl | ⟨rfl, -⟩
      · exact h
      · exact h
    -- The right side of an intercept is no variable.
    | intercept h =>
      rcases hside with rfl | ⟨rfl, hne⟩
      · exact h
      · exact absurd rfl hne
    | covariance ha hb =>
      rcases hside with rfl | ⟨rfl, -⟩
      · exact ha
      · exact hb

theorem Extends.mem_manifests (h : t.Extends t') {name : String}
    (hname : name ∈ t'.classify.manifests) : name ∈ t.classify.manifests := by
  obtain ⟨hname, hlatent⟩ := List.mem_filter.1 hname
  rw [h.latents_eq] at hlatent
  exact List.mem_filter.2 ⟨h.mem_variableNames hname, hlatent⟩

theorem prefix_applyIf {step : Table → Table} (h : ∀ t : Table, t.rows <+: (step t).rows)
    (on : Bool) (t : Table) : t.rows <+: (applyIf on step t).rows := by
  cases on with
  | false => exact List.prefix_rfl
  | true => exact h t

/-- A completed table is complete. -/
theorem complete_complete (o : Options) (t : Table) :
    (t.complete o t.classify).Complete o := by
  have hext := Extends.complete o t
  rw [complete] at hext ⊢
  generalize h₁ : applyIf o.addVariances addVariances t = t₁ at hext ⊢
  generalize h₂ : applyIf o.addIntercepts (addIntercepts t.classify.manifests) t₁ = t₂ at hext ⊢
  generalize h₃ : applyIf o.addExogenousLatentCovariances (addCovariances t.classify.latents) t₂ =
    t₃ at hext ⊢
  generalize h₄ : applyIf o.addExogenousManifestCovariances
    (addCovariances t.classify.manifests) t₃ = t₄ at hext ⊢
  -- What a step has provided is there at the end.
  have p₄ : t₃.rows <+: t₄.rows := h₄ ▸ prefix_applyIf (fun _ => List.prefix_append _ _) _ _
  have p₃ : t₂.rows <+: t₄.rows :=
    (h₃ ▸ prefix_applyIf (fun _ => List.prefix_append _ _) _ _ : t₂.rows <+: t₃.rows).trans p₄
  have p₂ : t₁.rows <+: t₄.rows :=
    (h₂ ▸ prefix_applyIf (fun _ => List.prefix_append _ _) _ _ : t₁.rows <+: t₂.rows).trans p₃
  refine ⟨fun on name hname => ?_, fun on name hname => ?_, fun on => ?_,
    fun on a ha b hb => ?_⟩
  · rw [on] at h₁
    exact any_mono p₂ (h₁ ▸ any_addVariances (hext.mem_variableNames hname))
  · rw [on] at h₂
    exact any_mono p₃ (h₂ ▸ any_addIntercepts (hext.mem_manifests hname))
  · rw [on] at h₃
    have hlatents : t₄.classify.latents = t.classify.latents := hext.latents_eq
    rw [hlatents]
    exact (h₃ ▸ covary_addCovariances t.classify.latents t₂ : t₃.Covary _).mono p₄
  · rw [on] at h₄
    exact (h₄ ▸ covary_addCovariances t.classify.manifests t₃ : t₄.Covary _)
      a (hext.mem_manifests ha) b (hext.mem_manifests hb)

/-! ## Outlines -/

/-- A table without its parameters. -/
def outline (t : Table) : Table :=
  ⟨t.rows.map Relation.outline⟩

theorem any_outline {p : Relation → Bool} (hp : p ∘ Relation.outline = p) (t : Table) :
    t.outline.rows.any p = t.rows.any p := by
  rw [outline, List.any_map, hp]

theorem variableNames_outline (t : Table) : t.outline.variableNames = t.variableNames := by
  have hedges : t.outline.edges = t.edges.map Relation.outline := List.filter_map ..
  rw [variableNames, variableNames, hedges, List.map_map, List.map_map]
  rfl

theorem latents_outline (t : Table) : t.outline.latents = t.latents := by
  have hloadings : t.outline.rows.filter (fun r => r.op == .loading) =
      (t.rows.filter fun r => r.op == .loading).map Relation.outline := List.filter_map ..
  rw [latents, latents, hloadings, List.map_map]
  rfl

theorem classify_outline (t : Table) : t.outline.classify = t.classify := by
  rw [classify, classify, latents_outline, variableNames_outline]

theorem isExogenous_outline (t : Table) : t.outline.isExogenous = t.isExogenous := by
  funext name
  rw [isExogenous, isExogenous, any_outline rfl]

theorem covary_outline {names : List String} : t.outline.Covary names ↔ t.Covary names := by
  have hrows (a b : String) : t.outline.rows.any (Relation.connects a b) =
      t.rows.any (Relation.connects a b) := any_outline rfl t
  simp only [Covary, isExogenous_outline, hrows]

theorem complete_outline : t.outline.Complete o ↔ t.Complete o := by
  have hclassify := t.classify_outline
  have hnames := t.variableNames_outline
  have hvariance (name : String) : t.outline.rows.any (Relation.isVarianceOf name) =
      t.rows.any (Relation.isVarianceOf name) := any_outline rfl t
  have hintercept (name : String) : t.outline.rows.any (Relation.isInterceptOf name) =
      t.rows.any (Relation.isInterceptOf name) := any_outline rfl t
  constructor
  · rintro ⟨h₁, h₂, h₃, h₄⟩
    simp only [hclassify, hnames, hvariance, hintercept, covary_outline] at h₁ h₂ h₃ h₄
    exact ⟨h₁, h₂, h₃, h₄⟩
  · rintro ⟨h₁, h₂, h₃, h₄⟩
    refine ⟨?_, ?_, ?_, ?_⟩
    all_goals simpa only [hclassify, hnames, hvariance, hintercept, covary_outline]

/-- Whether a table is complete depends on its outline only. -/
theorem Complete.of_outline (h : t.Complete o) (heq : t'.outline = t.outline) : t'.Complete o :=
  complete_outline.1 (heq ▸ complete_outline.2 h)

end Table

end StructuralModel
