import StructuralModel.Proofs.Model.Independent

/-!
# What compilation leaves as it is

A compiled model is the model that was read, but for rows that are appended to its table and for
modifiers that are fixed. Where a row stands and what else it says is never changed, and what is
changed is little (`Table.Identifies`): a row without modifier is fixed, and of each latent variable
this happens to one loading and to one variance at most, if the options ask for it.

* `changes_fixFirst`: fixing the first row with a property changes this row only;
* `ScalesEach.scaleEach`: scaling latent variables one after the other changes at most one row of
  each;
* `identifies_compile`: what becomes of a model when it is compiled.
-/

namespace StructuralModel

namespace Table

variable {t t' t'' : Table} {i : Nat} {r : Relation} {p : Relation → Bool}

/-- The row `r` at place `i` of `t` is another one in `t'`. -/
def Changes (t t' : Table) (i : Nat) (r : Relation) : Prop :=
  t.rows[i]? = some r ∧ t'.rows[i]? ≠ some r

/-- Of the rows with the property `p`, at most one is another one in `t'`. -/
def ChangesOne (p : Relation → Bool) (t t' : Table) : Prop :=
  ∀ i j r s, t.Changes t' i r → t.Changes t' j s → p r = true → p s = true → i = j

/-- What identification may do to a table. -/
structure Identifies (o : Options) (latents : List String) (t t' : Table) : Prop where
  /-- Rows stay in their places, and but for their modifiers they stay as they are. -/
  unmodified : t'.rows.map Relation.unmodified = t.rows.map Relation.unmodified
  /-- A row that is changed had no modifier and is fixed. -/
  fixes : ∀ i r, t.Changes t' i r → r.modifier = none ∧
    t'.rows[i]? = some { r with modifier := some (.fixed scalingValue) }
  /-- It is a loading or the variance of a latent variable, and the options ask for it. -/
  scales : ∀ i r, t.Changes t' i r → ∃ latent ∈ latents,
    o.scaleLoadings = true ∧ r.isLoadingOf latent = true ∨
      o.scaleLatentVariances = true ∧ r.isVarianceOf latent = true
  /-- At most one loading of a latent variable is changed. -/
  loading : ∀ latent, t.ChangesOne (Relation.isLoadingOf latent) t'
  /-- At most one variance of a latent variable is changed. -/
  variance : ∀ latent, t.ChangesOne (Relation.isVarianceOf latent) t'

/-! ## Changed rows -/

theorem not_changes_self : ¬t.Changes t i r :=
  fun h => h.2 h.1

/-- A row that is changed in two steps is changed in the first one, or is still the same row when
    the second one changes it. -/
theorem Changes.or (h : t.Changes t'' i r) (t' : Table) :
    t.Changes t' i r ∨ t'.Changes t'' i r := by
  by_cases hr : t'.rows[i]? = some r
  · exact .inr ⟨hr, h.2⟩
  · exact .inl ⟨h.1, hr⟩

/-- Fixing the first row with a property changes this row only. -/
theorem changes_fixFirst (h : t.Changes (t.fixFirst p) i r) :
    t.rows.find? p = some r ∧ t.rows.findIdx p = i ∧
      (t.fixFirst p).rows[i]? = some { r with modifier := some (.fixed scalingValue) } := by
  obtain ⟨rows⟩ := t
  obtain ⟨hr, hne⟩ := h
  change rows[i]? = some r at hr
  change (setFirstModifier.go p (some (.fixed scalingValue)) rows)[i]? ≠ some r at hne
  show rows.find? p = some r ∧ rows.findIdx p = i ∧
    (setFirstModifier.go p (some (.fixed scalingValue)) rows)[i]? = _
  -- By induction along the rows, up to the first one with the property.
  induction rows generalizing i with
  | nil => cases hr
  | cons first rows ih =>
    rw [setFirstModifier.go] at hne ⊢
    rw [List.find?_cons, List.findIdx_cons]
    cases hp : p first with
    | true =>
      rw [hp, if_pos rfl] at hne
      cases i with
      | zero =>
        obtain rfl := Option.some.inj hr
        exact ⟨rfl, rfl, rfl⟩
      | succ i => exact absurd hr hne
    | false =>
      rw [hp, if_neg Bool.false_ne_true] at hne
      cases i with
      | zero => exact absurd hr hne
      | succ i =>
        obtain ⟨hfind, hidx, hrow⟩ := ih hr hne
        exact ⟨hfind, congrArg (· + 1) hidx, hrow⟩

/-- A row that is changed when rows are fixed had no modifier and is fixed. -/
theorem Scales.fixes (h : t.Scales t') (hr : t.Changes t' i r) : r.modifier = none ∧
    t'.rows[i]? = some { r with modifier := some (.fixed scalingValue) } := by
  induction h with
  | refl => exact absurd hr not_changes_self
  | @fixFirst t' p _ hnone ih =>
    rcases hr.or t' with hr | hr
    · obtain ⟨hmod, hrow⟩ := ih hr
      refine ⟨hmod, ?_⟩
      -- The row is fixed already, and what is fixed is not the first one to be fixed again.
      by_contra hne
      cases hnone _ (changes_fixFirst ⟨hrow, hne⟩).1
    · obtain ⟨hfind, -, hrow⟩ := changes_fixFirst hr
      exact ⟨hnone r hfind, hrow⟩

/-! ## At most one row -/

theorem changesOne_self : t.ChangesOne p t :=
  fun _ _ _ _ h => absurd h not_changes_self

/-- At most one row is changed in two steps if only one of them changes such rows. -/
theorem ChangesOne.left (h : t.ChangesOne p t')
    (hnone : ∀ i r, t'.Changes t'' i r → p r ≠ true) : t.ChangesOne p t'' := by
  have hfirst {i : Nat} {r : Relation} (hr : t.Changes t'' i r) (hp : p r = true) :
      t.Changes t' i r := (hr.or t').resolve_right fun hr => hnone i r hr hp
  exact fun i j r s hr hs hpr hps => h i j r s (hfirst hr hpr) (hfirst hs hps) hpr hps

theorem ChangesOne.right (h : t'.ChangesOne p t'')
    (hnone : ∀ i r, t.Changes t' i r → p r ≠ true) : t.ChangesOne p t'' := by
  have hsecond {i : Nat} {r : Relation} (hr : t.Changes t'' i r) (hp : p r = true) :
      t'.Changes t'' i r := (hr.or t').resolve_left fun hr => hnone i r hr hp
  exact fun i j r s hr hs hpr hps => h i j r s (hsecond hr hpr) (hsecond hs hps) hpr hps

/-! ## Identification -/

/-- Only rows of the names in a list are changed, and of each name at most one. Which rows are those
    of a name is told by `owns`. -/
structure ScalesEach (owns : String → Relation → Bool) (names : List String) (t t' : Table) :
    Prop where
  owned : ∀ i r, t.Changes t' i r → ∃ name ∈ names, owns name r = true
  one : ∀ name, t.ChangesOne (owns name) t'

theorem scalesEach_self (owns : String → Relation → Bool) (names : List String) (t : Table) :
    t.ScalesEach owns names t where
  owned _ _ h := absurd h not_changes_self
  one _ := changesOne_self

/-- Fixing the first row with a property that only rows of a name have. -/
theorem scalesEach_fixFirst {owns : String → Relation → Bool} {name : String}
    (hp : ∀ r, p r = true → owns name r = true) (t : Table) :
    t.ScalesEach owns [name] (t.fixFirst p) where
  owned _ r h := ⟨name, List.mem_cons_self, hp r (List.find?_some (changes_fixFirst h).1)⟩
  one _ _ _ _ _ hr hs _ _ := (changes_fixFirst hr).2.1.symm.trans (changes_fixFirst hs).2.1

theorem scalesEach_scaleLatentVariance (t : Table) (latent : String) :
    t.ScalesEach Relation.isVarianceOf [latent] (t.scaleLatentVariance latent).1 := by
  rcases t.scaleLatentVariance_cases latent with h | ⟨-, h⟩
  · rw [h]
    exact scalesEach_self ..
  · rw [h]
    exact scalesEach_fixFirst (fun _ h => h) t

theorem scalesEach_scaleLoading (t : Table) (latent : String) :
    t.ScalesEach Relation.isLoadingOf [latent] (t.scaleLoading latent).1 := by
  rcases t.scaleLoading_cases latent with h | ⟨-, -, h⟩
  · rw [h]
    exact scalesEach_self ..
  · rw [h]
    exact scalesEach_fixFirst (fun _ h => (Bool.and_eq_true_iff.1 h).1) t

/-- If each step changes at most one row, and only a row of its name, the steps for several names
    change at most one row of each. -/
theorem ScalesEach.scaleEach {owns : String → Relation → Bool}
    {scale : Table → String → Table × List Finding}
    (hstep : ∀ (t : Table) name, t.ScalesEach owns [name] (scale t name).1)
    (howns : ∀ {a b r}, owns a r = true → owns b r = true → a = b) {names : List String}
    (hnames : names.Nodup) (t : Table) :
    t.ScalesEach owns names (Table.scaleEach scale t names).1 := by
  induction names generalizing t with
  | nil => exact scalesEach_self ..
  | cons name names ih =>
    obtain ⟨hname, hnames⟩ := List.nodup_cons.1 hnames
    have hfirst := hstep t name
    have hrest := ih hnames (scale t name).1
    have howned {i : Nat} {r : Relation} (h : t.Changes (scale t name).1 i r) :
        owns name r = true := by
      obtain ⟨_, hmem, howned⟩ := hfirst.owned i r h
      rwa [List.mem_singleton.1 hmem] at howned
    refine ⟨fun i r h => ?_, fun other => ?_⟩
    · rcases h.or (scale t name).1 with h | h
      · exact ⟨name, List.mem_cons_self, howned h⟩
      · obtain ⟨other, hmem, howned⟩ := hrest.owned i r h
        exact ⟨other, List.mem_cons_of_mem _ hmem, howned⟩
    -- A row of the first name is changed by the first step only, other rows by the other steps.
    · by_cases heq : other = name
      · refine (hfirst.one other).left fun i r h hother => ?_
        obtain ⟨later, hmem, hlater⟩ := hrest.owned i r h
        rw [← howns hother hlater, heq] at hmem
        exact hname hmem
      · exact (hrest.one other).right fun i r h hother => heq (howns hother (howned h))

/-- Steps that are not taken change no row. -/
theorem ScalesEach.scaleEach_if {owns : String → Relation → Bool}
    {scale : Table → String → Table × List Finding}
    (hstep : ∀ (t : Table) name, t.ScalesEach owns [name] (scale t name).1)
    (howns : ∀ {a b r}, owns a r = true → owns b r = true → a = b) {names : List String}
    (hnames : names.Nodup) (on : Bool) (t : Table) :
    t.ScalesEach owns (if on then names else [])
      (if on then Table.scaleEach scale t names else (t, [])).1 := by
  cases on with
  | true => exact .scaleEach hstep howns hnames t
  | false => exact scalesEach_self ..

theorem eq_of_isVarianceOf {a b : String} (ha : r.isVarianceOf a = true)
    (hb : r.isVarianceOf b = true) : a = b := by
  simp only [Relation.isVarianceOf, Bool.and_eq_true, beq_iff_eq] at ha hb
  exact ha.2.symm.trans hb.2

theorem eq_of_isLoadingOf {a b : String} (ha : r.isLoadingOf a = true)
    (hb : r.isLoadingOf b = true) : a = b := by
  simp only [Relation.isLoadingOf, Bool.and_eq_true, beq_iff_eq] at ha hb
  exact ha.2.symm.trans hb.2

/-- No row is a variance and a loading. -/
theorem not_isLoadingOf_of_isVarianceOf {a b : String} (ha : r.isVarianceOf a = true) :
    r.isLoadingOf b ≠ true := by
  intro hb
  have := (op_of_isVarianceOf ha).symm.trans (op_of_isLoadingOf hb)
  cases this

/-- Identification fixes at most one variance and at most one loading of each latent variable. -/
theorem identifies_identify {latents : List String} (hlatents : latents.Nodup) (o : Options)
    (t : Table) : t.Identifies o latents (t.identify o latents).1 := by
  obtain ⟨t', h, h'⟩ : ∃ t', t.ScalesEach Relation.isVarianceOf
        (if o.scaleLatentVariances then latents else []) t' ∧
      t'.ScalesEach Relation.isLoadingOf (if o.scaleLoadings then latents else [])
        (t.identify o latents).1 :=
    ⟨_, .scaleEach_if scalesEach_scaleLatentVariance eq_of_isVarianceOf hlatents _ t,
      .scaleEach_if scalesEach_scaleLoading eq_of_isLoadingOf hlatents _ _⟩
  have hscales := Scales.identify o latents t
  refine ⟨hscales.map_unmodified, fun i r => hscales.fixes, fun i r hr => ?_, fun latent => ?_,
    fun latent => ?_⟩
  · have hon {on : Bool} {latent : String} (h : latent ∈ if on then latents else []) :
        latent ∈ latents ∧ on = true := by
      cases on with
      | false => cases h
      | true => exact ⟨h, rfl⟩
    rcases hr.or t' with hr | hr
    · obtain ⟨latent, hmem, howned⟩ := h.owned i r hr
      exact ⟨latent, (hon hmem).1, .inr ⟨(hon hmem).2, howned⟩⟩
    · obtain ⟨latent, hmem, howned⟩ := h'.owned i r hr
      exact ⟨latent, (hon hmem).1, .inl ⟨(hon hmem).2, howned⟩⟩
  · refine (h'.one latent).right fun i r hr hloading => ?_
    obtain ⟨other, -, howned⟩ := h.owned i r hr
    exact not_isLoadingOf_of_isVarianceOf howned hloading
  · refine (h.one latent).left fun i r hr hvariance => ?_
    obtain ⟨other, -, howned⟩ := h'.owned i r hr
    exact not_isLoadingOf_of_isVarianceOf hvariance howned

end Table

/-! ## Compilation -/

/-- The table of a compiled model is the one that was read, with rows appended that have no modifier
    and no bounds, are free and were not written anywhere, and then identified. All else of the
    model is as it was read, and what is remarked comes after what was remarked before. -/
theorem identifies_compile {o : Options} {source : String} {m : CompiledModel}
    (h : compile o source = .ok m) :
    ∃ (p : Model) (added : List Relation), Model.parse source = .ok p ∧
      (∀ r ∈ added, r.modifier = none ∧ r.lower = none ∧ r.upper = none ∧ r.free = true ∧
        r.span = none) ∧
      (p.table.append added).Identifies o p.table.latents m.table ∧
      m.name = p.name ∧ m.algebra = p.algebra ∧ m.blocks = p.blocks ∧ p.remarks <+: m.remarks := by
  obtain ⟨p, hp, rfl⟩ := compile_eq_ok_iff.1 h
  obtain ⟨added, hadded, hall⟩ := Table.Extends.complete o p.table
  refine ⟨p, added, hp, fun r hr => ?_, ?_, rfl, rfl, rfl, List.prefix_append _ _⟩
  · cases hall r hr <;> exact ⟨rfl, rfl, rfl, rfl, rfl⟩
  · have htable : p.table.append added = p.table.complete o p.table.classify := by
      rw [Table.append, ← hadded]
    rw [htable]
    exact Table.identifies_identify p.table.nodup_latents o _

/-- A model of a higher order, with a variance of its own, whose latent variables are scaled by
    variances and by loadings. -/
theorem identifies_compile_higherOrder :
    ∃ m, compile { scaleLatentVariances := true } "f =~ x + y; g =~ f + a*z; f ~~ f" = .ok m ∧
      ∃ (p : Model) (added : List Relation),
        Model.parse "f =~ x + y; g =~ f + a*z; f ~~ f" = .ok p ∧
        (∀ r ∈ added, r.modifier = none ∧ r.lower = none ∧ r.upper = none ∧ r.free = true ∧
          r.span = none) ∧
        (p.table.append added).Identifies { scaleLatentVariances := true } p.table.latents
          m.table ∧
        m.name = p.name ∧ m.algebra = p.algebra ∧ m.blocks = p.blocks ∧
        p.remarks <+: m.remarks := by
  obtain ⟨m, hm⟩ : ∃ m, (compile { scaleLatentVariances := true }
      "f =~ x + y; g =~ f + a*z; f ~~ f").toOption = some m :=
    Option.isSome_iff_exists.1 (by decide +kernel)
  have h := CompiledModel.eq_ok_of_toOption hm
  exact ⟨m, h, identifies_compile h⟩

end StructuralModel
