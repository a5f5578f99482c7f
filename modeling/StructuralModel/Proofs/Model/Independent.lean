import StructuralModel.Proofs.Model.Identified
import StructuralModel.Proofs.Model.RoundTrip

/-!
# Steps that do not interfere

The steps of completion and identification run one after the other, each on the table that the
earlier ones left. None of them finds what it looks for, or misses what it would have found, because
of an earlier one:

* variances and covariances of latent variables are no intercepts, and none of the rows that are
  appended predicts a variable or joins two different variables of another step (`Neutral`), so
  every step of completion appends what it would append to the table that was read
  (`complete_eq_append`);
* rows that are appended are no loadings, so loadings are scaled as if they were not there
  (`scaleLoadings_append`);
* one step of identification looks at variances only and the other one at loadings only, so that
  their order does not matter (`scaleLoadings_scaleLatentVariances`).
-/

namespace StructuralModel

namespace Table

variable {t : Table} {o : Options} {rows : List Relation} {names : List String}

/-- The rows that a step appends to a table. -/
def appended (step : Table → Table) (t : Table) : List Relation :=
  (step t).rows.drop t.rows.length

/-- The rows that the steps of completion that are on append to a table if each of them is run on
    the table alone. -/
def completion (o : Options) (t : Table) : List Relation :=
  (if o.addVariances then t.appended addVariances else []) ++
    (if o.addIntercepts then t.appended (addIntercepts t.classify.manifests) else []) ++
    (if o.addExogenousLatentCovariances then
      t.appended (addCovariances t.classify.latents) else []) ++
    (if o.addExogenousManifestCovariances then
      t.appended (addCovariances t.classify.manifests) else [])

theorem appended_append (rows : List Relation) (t : Table) :
    t.appended (fun t => t.append rows) = rows :=
  List.drop_left

/-- What the steps append is what is missing. -/
theorem completion_eq (o : Options) (t : Table) :
    t.completion o = (if o.addVariances then t.missingVariances else []) ++
      (if o.addIntercepts then t.missingIntercepts t.classify.manifests else []) ++
      (if o.addExogenousLatentCovariances then
        t.missingCovariances t.classify.latents else []) ++
      (if o.addExogenousManifestCovariances then
        t.missingCovariances t.classify.manifests else []) := by
  rw [completion, show t.appended addVariances = t.missingVariances from appended_append _ t,
    show t.appended (addIntercepts t.classify.manifests) =
      t.missingIntercepts t.classify.manifests from appended_append _ t,
    show t.appended (addCovariances t.classify.latents) =
      t.missingCovariances t.classify.latents from appended_append _ t,
    show t.appended (addCovariances t.classify.manifests) =
      t.missingCovariances t.classify.manifests from appended_append _ t]

theorem append_append (t : Table) (rows more : List Relation) :
    (t.append rows).append more = t.append (rows ++ more) := by
  rw [append, append, append, List.append_assoc]

/-! ## Rows that are not looked at -/

/-- Rows without a property do not matter to whether some row has it. -/
theorem any_append {p : Relation → Bool} (h : ∀ r ∈ rows, p r = false) (t : Table) :
    (t.append rows).rows.any p = t.rows.any p := by
  have hnone : rows.any p = false := List.any_eq_false.2 fun r hr => by simp [h r hr]
  rw [append, List.any_append, hnone, Bool.or_false]

/-- Rows that predict nothing and join no two different ones of the variables `names`. -/
structure Neutral (names : List String) (rows : List Relation) : Prop where
  predicts : ∀ r ∈ rows, ∀ name, r.predicts name = false
  connects : ∀ r ∈ rows, ∀ a ∈ names, ∀ b ∈ names, a ≠ b → r.connects a b = false

theorem Neutral.append {more : List Relation} (h : Neutral names rows) (h' : Neutral names more) :
    Neutral names (rows ++ more) where
  predicts r hr := (List.mem_append.1 hr).elim (h.predicts r) (h'.predicts r)
  connects r hr := (List.mem_append.1 hr).elim (h.connects r) (h'.connects r)

theorem Neutral.ite (on : Bool) (h : Neutral names rows) :
    Neutral names (if on then rows else []) := by
  cases on with
  | true => exact h
  | false => exact ⟨fun _ hr => (by cases hr), fun _ hr => (by cases hr)⟩

/-- A variance joins a variable with itself. -/
theorem neutral_missingVariances (names : List String) (t : Table) :
    Neutral names t.missingVariances := by
  refine ⟨fun r hr name => ?_, fun r hr a _ b _ hne => ?_⟩
  · obtain ⟨v, -, rfl⟩ := List.mem_map.1 hr
    rfl
  · obtain ⟨v, -, rfl⟩ := List.mem_map.1 hr
    by_cases hva : v = a
    · simp [Relation.connects, hva, hne]
    · simp [Relation.connects, hva]

/-- An intercept predicts nothing and joins nothing. -/
theorem neutral_missingIntercepts (names others : List String) (t : Table) :
    Neutral names (t.missingIntercepts others) := by
  refine ⟨fun r hr name => ?_, fun r hr a _ b _ _ => ?_⟩
  · obtain ⟨v, -, rfl⟩ := List.mem_map.1 hr
    simp [Relation.predicts]
  · obtain ⟨v, -, rfl⟩ := List.mem_map.1 hr
    rfl

/-- A covariance of other variables joins none of the variables `names`. -/
theorem neutral_missingCovariances {others : List String} (h : ∀ name ∈ others, name ∉ names)
    (t : Table) : Neutral names (t.missingCovariances others) := by
  refine ⟨fun r hr name => ?_, fun r hr a ha b hb _ => ?_⟩
  · obtain ⟨⟨v, w⟩, -, rfl⟩ := List.mem_map.1 hr
    rfl
  · obtain ⟨⟨v, w⟩, hvw, rfl⟩ := List.mem_map.1 hr
    have hv : v ∉ names :=
      h v (List.mem_filter.1 (mem_of_mem_pairs (List.mem_filter.1 hvw).1).1).1
    have hva : v ≠ a := fun heq => hv (heq ▸ ha)
    have hvb : v ≠ b := fun heq => hv (heq ▸ hb)
    simp [Relation.connects, hva, hvb]

/-- Intercepts are missing still if no intercept is appended. -/
theorem missingIntercepts_append (h : ∀ r ∈ rows, r.op ≠ .regression) (names : List String)
    (t : Table) : (t.append rows).missingIntercepts names = t.missingIntercepts names := by
  rw [missingIntercepts, missingIntercepts]
  congr 1
  refine List.filter_congr fun name _ => ?_
  rw [any_append fun r hr => ?_]
  simp [Relation.isInterceptOf, h r hr]

/-- Covariances are missing still if neutral rows are appended. -/
theorem missingCovariances_append (hnames : names.Nodup) (h : Neutral names rows) (t : Table) :
    (t.append rows).missingCovariances names = t.missingCovariances names := by
  have hexogenous : (t.append rows).isExogenous = t.isExogenous := by
    funext name
    rw [isExogenous, isExogenous, any_append fun r hr => h.predicts r hr name]
  rw [missingCovariances, missingCovariances, hexogenous]
  congr 1
  refine List.filter_congr fun p hab => ?_
  obtain ⟨a, b⟩ := p
  -- The two variables of a pair differ, since no name is given twice.
  have hne := ne_of_mem_pairs (List.Pairwise.filter t.isExogenous hnames) hab
  obtain ⟨ha, hb⟩ := mem_of_mem_pairs hab
  exact congrArg Bool.not (any_append (fun r hr =>
    h.connects r hr a (List.mem_filter.1 ha).1 b (List.mem_filter.1 hb).1 hne) t)

/-! ## Completed tables -/

theorem applyIf_append (on : Bool) {step : Table → Table} (h : step t = t.append rows) :
    applyIf on step t = t.append (if on then rows else []) := by
  cases on with
  | true => exact h
  | false => exact (append_nil t).symm

/-- A completed table is the table and behind it, for each step that is on, the rows that the step
    would append to the table alone. -/
theorem complete_eq_append (o : Options) (t : Table) :
    t.complete o t.classify = t.append (t.completion o) := by
  have hvariance : ∀ r ∈ (if o.addVariances then t.missingVariances else []),
      r.op ≠ .regression := by
    intro r hr
    split at hr
    · obtain ⟨v, -, rfl⟩ := List.mem_map.1 hr
      exact Operator.noConfusion
    · cases hr
  have hlatent : ∀ name ∈ t.classify.latents, name ∉ t.classify.manifests :=
    fun _ => not_mem_manifests
  have hvariances (names : List String) := (neutral_missingVariances names t).ite o.addVariances
  have hintercepts (names : List String) :=
    (neutral_missingIntercepts names t.classify.manifests t).ite o.addIntercepts
  have hcovariances :=
    (neutral_missingCovariances hlatent t).ite o.addExogenousLatentCovariances
  -- Each step finds the rows of the ones before it neutral.
  rw [complete,
    applyIf_append o.addVariances (show addVariances t = t.append t.missingVariances from rfl),
    applyIf_append o.addIntercepts (congrArg _ (missingIntercepts_append hvariance _ t)),
    append_append,
    applyIf_append o.addExogenousLatentCovariances (congrArg _ (missingCovariances_append
      t.nodup_latents ((hvariances _).append (hintercepts _)) t)),
    append_append,
    applyIf_append o.addExogenousManifestCovariances (congrArg _ (missingCovariances_append
      t.nodup_manifests (((hvariances _).append (hintercepts _)).append hcovariances) t)),
    append_append]
  rw [completion_eq]

/-! ## Scaled loadings -/

/-- The first row with a property is fixed whatever rows without the property are appended. -/
theorem fixFirst_append {p : Relation → Bool} (h : ∀ r ∈ rows, p r = false) (t : Table) :
    (t.append rows).fixFirst p = (t.fixFirst p).append rows := by
  have hnone : setFirstModifier.go p (some (.fixed scalingValue)) rows = rows := by
    induction rows with
    | nil => rfl
    | cons r rows ih =>
      rw [setFirstModifier.go, h r List.mem_cons_self, if_neg Bool.false_ne_true,
        ih fun r hr => h r (List.mem_cons_of_mem _ hr)]
  obtain ⟨first⟩ := t
  show (⟨setFirstModifier.go p _ (first ++ rows)⟩ : Table) = ⟨setFirstModifier.go p _ first ++ rows⟩
  congr 1
  induction first with
  | nil => exact hnone
  | cons r first ih =>
    rw [List.cons_append, setFirstModifier.go, setFirstModifier.go]
    split
    · rfl
    · rw [ih, List.cons_append]

/-- Rows without a property do not matter to which row is the first that has it. -/
theorem find?_append {p : Relation → Bool} (h : ∀ r ∈ rows, p r = false) (t : Table) :
    (t.append rows).rows.find? p = t.rows.find? p := by
  have hnone : rows.find? p = none := List.find?_eq_none.2 fun r hr => by simp [h r hr]
  rw [append, List.find?_append, hnone, Option.or_none]

/-- A loading is scaled as if rows that are no loadings were not there. -/
theorem scaleLoading_append (h : ∀ r ∈ rows, r.op ≠ .loading) (t : Table) (latent : String) :
    (t.append rows).scaleLoading latent =
      ((t.scaleLoading latent).1.append rows, (t.scaleLoading latent).2) := by
  have hloading : ∀ r ∈ rows, r.isLoadingOf latent = false := by
    intro r hr
    simp [Relation.isLoadingOf, h r hr]
  have hand (q : Relation → Bool) : ∀ r ∈ rows, (r.isLoadingOf latent && q r) = false := by
    intro r hr
    rw [hloading r hr, Bool.false_and]
  rw [scaleLoading, scaleLoading, find?_append (hand _), any_append (hand _),
    fixFirst_append (hand _), find?_append hloading]
  split
  · rfl
  · split <;> rfl

/-- Loadings are scaled as if rows that are no loadings were not there. -/
theorem scaleLoadings_append (h : ∀ r ∈ rows, r.op ≠ .loading) (t : Table)
    (latents : List String) :
    (t.append rows).scaleLoadings latents =
      ((t.scaleLoadings latents).1.append rows, (t.scaleLoadings latents).2) := by
  rw [scaleLoadings, scaleLoadings]
  induction latents generalizing t with
  | nil => rfl
  | cons latent latents ih =>
    rw [scaleEach, scaleEach, scaleLoading_append h]
    simp only [ih]

/-- The rows that complete a table are no loadings. -/
theorem ne_loading_of_mem_completion : ∀ r ∈ t.completion o, r.op ≠ .loading := by
  intro r hr
  obtain ⟨added, hadded, hall⟩ := Extends.complete o t
  rw [complete_eq_append, append, List.append_cancel_left_eq] at hadded
  rw [hadded] at hr
  cases hall r hr <;> exact Operator.noConfusion

/-! ## Order of scaling -/

/-- Whatever modifier they have, rows with the property `q` do not have the property `p`. -/
def Apart (p q : Relation → Bool) : Prop :=
  ∀ r modifier, q r = true → p { r with modifier } = false

theorem Apart.eq_false {p q : Relation → Bool} (h : Apart p q) {r : Relation} (hq : q r = true) :
    p r = false :=
  h r r.modifier hq

variable {p q : Relation → Bool}

/-- Fixing a row does not matter to what is apart from it. -/
theorem Apart.find?_fixFirst (h : Apart p q) (t : Table) :
    (t.fixFirst q).rows.find? p = t.rows.find? p := by
  obtain ⟨rows⟩ := t
  show (setFirstModifier.go q _ rows).find? p = rows.find? p
  induction rows with
  | nil => rfl
  | cons r rows ih =>
    rw [setFirstModifier.go]
    split
    case isTrue hq =>
      rw [List.find?_cons_of_neg (by simp [h r _ hq]),
        List.find?_cons_of_neg (by simp [h.eq_false hq])]
    case isFalse => rw [List.find?_cons, List.find?_cons, ih]

theorem Apart.any_fixFirst (h : Apart p q) (t : Table) :
    (t.fixFirst q).rows.any p = t.rows.any p := by
  rw [← List.isSome_find?, ← List.isSome_find?, h.find?_fixFirst]

/-- Two rows that are apart can be fixed in either order. -/
theorem Apart.fixFirst_comm (h : Apart p q) (h' : Apart q p) (t : Table) :
    (t.fixFirst q).fixFirst p = (t.fixFirst p).fixFirst q := by
  obtain ⟨rows⟩ := t
  show (⟨setFirstModifier.go p _ (setFirstModifier.go q _ rows)⟩ : Table) =
    ⟨setFirstModifier.go q _ (setFirstModifier.go p _ rows)⟩
  congr 1
  induction rows with
  | nil => rfl
  | cons r rows ih =>
    -- The row is the first one for `q`, for `p`, or for none of them.
    by_cases hq : q r = true
    · have hp := h.eq_false hq
      simp only [setFirstModifier.go, hq, hp, h r _ hq, if_true, Bool.false_eq_true, if_false]
    · by_cases hp : p r = true
      · simp only [setFirstModifier.go, hq, hp, h' r _ hp, if_true, Bool.false_eq_true, if_false]
      · simp only [setFirstModifier.go, hq, hp, Bool.false_eq_true, if_false, ih]

theorem apart_of_op {op op' : Operator} (hne : op ≠ op')
    (hp : ∀ r, p r = true → r.op = op) (hq : ∀ r, q r = true → r.op = op') : Apart p q := by
  intro r modifier hr
  refine Bool.eq_false_iff.2 fun h => hne ?_
  exact (hp _ h).symm.trans (hq r hr)

theorem op_of_isVarianceOf {latent : String} {r : Relation}
    (h : r.isVarianceOf latent = true) : r.op = .covariance := by
  simp only [Relation.isVarianceOf, Bool.and_eq_true, beq_iff_eq] at h
  exact h.1.1

theorem op_of_isLoadingOf {latent : String} {r : Relation}
    (h : r.isLoadingOf latent = true) : r.op = .loading := by
  simp only [Relation.isLoadingOf, Bool.and_eq_true, beq_iff_eq] at h
  exact h.1

/-- The variance of a latent variable is scaled as if no loading had been fixed. -/
theorem scaleLatentVariance_fixFirst (hq : ∀ r, q r = true → r.op = .loading) (t : Table)
    (latent : String) :
    (t.fixFirst q).scaleLatentVariance latent =
      ((t.scaleLatentVariance latent).1.fixFirst q, (t.scaleLatentVariance latent).2) := by
  have happart : Apart (Relation.isVarianceOf latent) q :=
    apart_of_op Operator.noConfusion (fun _ => op_of_isVarianceOf) hq
  have happart' : Apart q (Relation.isVarianceOf latent) :=
    apart_of_op Operator.noConfusion hq (fun _ => op_of_isVarianceOf)
  rw [scaleLatentVariance, scaleLatentVariance, happart.find?_fixFirst,
    happart.fixFirst_comm happart']
  split
  · rfl
  · split <;> rfl

/-- The loadings of a latent variable are scaled as if no variance had been fixed. -/
theorem scaleLoading_fixFirst (hp : ∀ r, p r = true → r.op = .covariance) (t : Table)
    (latent : String) :
    (t.fixFirst p).scaleLoading latent =
      ((t.scaleLoading latent).1.fixFirst p, (t.scaleLoading latent).2) := by
  have hop (q : Relation → Bool) (r : Relation) (h : (r.isLoadingOf latent && q r) = true) :
      r.op = .loading := op_of_isLoadingOf (Bool.and_eq_true_iff.1 h).1
  have happart (q : Relation → Bool) : Apart (fun r => r.isLoadingOf latent && q r) p :=
    apart_of_op Operator.noConfusion (hop q) hp
  have happart' (q : Relation → Bool) : Apart p (fun r => r.isLoadingOf latent && q r) :=
    apart_of_op Operator.noConfusion hp (hop q)
  have hloading : Apart (Relation.isLoadingOf latent) p :=
    apart_of_op Operator.noConfusion (fun _ => op_of_isLoadingOf) hp
  rw [scaleLoading, scaleLoading, (happart _).find?_fixFirst, (happart _).any_fixFirst,
    (happart _).fixFirst_comm (happart' _), hloading.find?_fixFirst]
  split
  · rfl
  · split <;> rfl

/-- Of two latent variables, the variance of one and the loadings of the other one can be scaled in
    either order. -/
theorem scaleLoading_scaleLatentVariance (t : Table) (latent other : String) :
    ((t.scaleLatentVariance latent).1.scaleLoading other).1 =
      ((t.scaleLoading other).1.scaleLatentVariance latent).1 := by
  have hloading : ∀ r : Relation, (r.isLoadingOf other && r.modifier.isNone) = true →
      r.op = .loading := fun r h => op_of_isLoadingOf (Bool.and_eq_true_iff.1 h).1
  rcases t.scaleLatentVariance_cases latent with hv | ⟨-, hv⟩ <;>
    rcases t.scaleLoading_cases other with hl | ⟨-, -, hl⟩
  · rw [hv, hl, hv]
  · rw [hv, hl, scaleLatentVariance_fixFirst hloading, hv]
  · rw [hv, scaleLoading_fixFirst (fun _ => op_of_isVarianceOf), hl, hv]
  · rw [hl, scaleLatentVariance_fixFirst hloading, hv,
      scaleLoading_fixFirst (fun _ => op_of_isVarianceOf), hl]
    exact Apart.fixFirst_comm (apart_of_op Operator.noConfusion (fun _ => op_of_isVarianceOf)
      hloading) (apart_of_op Operator.noConfusion hloading fun _ => op_of_isVarianceOf) t

/-- Steps that can be run in either order for any two names can be so for lists of names. -/
theorem scaleEach_comm {scale scale' : Table → String → Table × List Finding}
    (h : ∀ t a b, (scale' (scale t a).1 b).1 = (scale (scale' t b).1 a).1) (t : Table)
    (names others : List String) :
    (scaleEach scale' (scaleEach scale t names).1 others).1 =
      (scaleEach scale (scaleEach scale' t others).1 names).1 := by
  have hone (b : String) (t : Table) (names : List String) :
      (scale' (scaleEach scale t names).1 b).1 = (scaleEach scale (scale' t b).1 names).1 := by
    induction names generalizing t with
    | nil => rfl
    | cons a names ih =>
      show (scale' (scaleEach scale (scale t a).1 names).1 b).1 =
        (scaleEach scale (scale (scale' t b).1 a).1 names).1
      rw [ih, h]
  induction others generalizing t with
  | nil => rfl
  | cons b others ih =>
    show (scaleEach scale' (scale' (scaleEach scale t names).1 b).1 others).1 =
      (scaleEach scale (scaleEach scale' (scale' t b).1 others).1 names).1
    rw [hone, ih]

/-- Variances and loadings can be scaled in either order. -/
theorem scaleLoadings_scaleLatentVariances (t : Table) (latents : List String) :
    ((t.scaleLatentVariances latents).1.scaleLoadings latents).1 =
      ((t.scaleLoadings latents).1.scaleLatentVariances latents).1 :=
  scaleEach_comm scaleLoading_scaleLatentVariance t latents latents

end Table

/-! ## Compiled models -/

/-- The sides and the operators of a compiled table are those of the table that was read and, behind
    them, of the rows that each step of completion would append to it alone. Loadings are scaled as
    if these rows were not there, and variances may be scaled before loadings or after them. -/
theorem exists_compile_completion {o : Options} {source : String} {p : Model}
    (h : Model.parse source = .ok p) :
    ∃ m, compile o source = .ok m ∧
      m.table.outline = (p.table.append (p.table.completion o)).outline ∧
      (p.table.complete o p.table.classify).scaleLoadings p.table.latents =
        ((p.table.scaleLoadings p.table.latents).1.append (p.table.completion o),
          (p.table.scaleLoadings p.table.latents).2) ∧
      ∀ (t : Table) (latents : List String),
        ((t.scaleLatentVariances latents).1.scaleLoadings latents).1 =
          ((t.scaleLoadings latents).1.scaleLatentVariances latents).1 := by
  refine ⟨p.compiled o, compile_eq_ok_iff.2 ⟨p, h, rfl⟩, ?_, ?_,
    Table.scaleLoadings_scaleLatentVariances⟩
  · -- Identification changes modifiers only.
    have hscales := Table.Scales.identify o p.table.latents
      (p.table.complete o p.table.classify)
    rw [← Table.complete_eq_append]
    exact hscales.outline_eq
  · rw [Table.complete_eq_append]
    exact Table.scaleLoadings_append Table.ne_loading_of_mem_completion _ _

/-- A model with two latent variables and a regression is completed and identified so. -/
theorem exists_compile_completion_factors :
    ∃ p, Model.parse "f =~ x + y; g =~ z; w ~ x" = .ok p ∧
      ∃ m, compile { scaleLatentVariances := true } "f =~ x + y; g =~ z; w ~ x" = .ok m ∧
        m.table.outline =
          (p.table.append (p.table.completion { scaleLatentVariances := true })).outline ∧
        (p.table.complete { scaleLatentVariances := true } p.table.classify).scaleLoadings
            p.table.latents =
          ((p.table.scaleLoadings p.table.latents).1.append
              (p.table.completion { scaleLatentVariances := true }),
            (p.table.scaleLoadings p.table.latents).2) ∧
        ∀ (t : Table) (latents : List String),
          ((t.scaleLatentVariances latents).1.scaleLoadings latents).1 =
            ((t.scaleLoadings latents).1.scaleLatentVariances latents).1 := by
  obtain ⟨p, hp⟩ : ∃ p, (Model.parse "f =~ x + y; g =~ z; w ~ x").toOption = some p :=
    Option.isSome_iff_exists.1 (by decide +kernel)
  have hparse := CompiledModel.eq_ok_of_toOption hp
  exact ⟨p, hparse, exists_compile_completion hparse⟩

end StructuralModel
