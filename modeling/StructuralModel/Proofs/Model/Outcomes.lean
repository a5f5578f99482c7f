import Mathlib.Data.List.Forall2
import StructuralModel.Proofs.Model.Classes
import StructuralModel.Proofs.Model.Frame

/-!
# What becomes of a latent variable

When latent variables are scaled, each of them has one outcome (`Table.Outcome`): a row is fixed, or
something is remarked. The outcome is judged by the rows of this variable in the table as it is in
the beginning (`Table.LoadingOutcome`, `Table.VarianceOutcome`), although the table changes on the
way: what is fixed for one variable is no loading and no variance of another one.

* `scaleEach_eq`: scaling variables one after the other takes effect as their outcomes do;
* `getElem?_foldl_apply`: which rows outcomes change;
* `scaledBy_outcomes`: what becomes of every latent variable, of all rows and of a second run, and
  which remark a compiled model never gets.
-/

namespace StructuralModel

/-- The finding is reported with this severity and this code. -/
def Finding.HasKind (severity : Severity) (code : Code) (f : Finding) : Prop :=
  f.diagnostic.severity = severity ∧ f.diagnostic.code = some code

namespace Table

variable {t : Table} {latent name other : String} {p q : Relation → Bool} {i : Nat} {r : Relation}
  {f : Finding}

/-! ## Outcomes -/

/-- What becomes of a latent variable that is to be scaled. -/
inductive Outcome where
  /-- The row at `place` is fixed. -/
  | fixes (place : Nat)
  /-- No row is fixed, for the reason `finding`. -/
  | remarks (finding : Finding)
  deriving DecidableEq

namespace Outcome

/-- What is remarked. -/
def remark? : Outcome → Option Finding
  | fixes _ => none
  | remarks f => some f

/-- What becomes of a table. -/
def apply (t : Table) : Outcome → Table
  | fixes i => t.setModifier i (some (.fixed scalingValue))
  | remarks _ => t

end Outcome

/-- The row `r` at place `i` is the first one with the property `p`. -/
structure First (t : Table) (p : Relation → Bool) (i : Nat) (r : Relation) : Prop where
  row : t.rows[i]? = some r
  holds : p r = true
  least : ∀ j < i, ∀ s, t.rows[j]? = some s → p s = false

/-- What becomes of the loadings of a latent variable. -/
inductive LoadingOutcome (t : Table) (latent : String) : Outcome → Prop
  /-- Some loading is fixed already. -/
  | fixed {i : Nat} {r : Relation} {f : Finding} :
      t.First (fun r => r.isLoadingOf latent && r.isFixed) i r →
      f = .fixedLoading latent r.rhs r.span → f.HasKind .note .alreadyScaled →
      LoadingOutcome t latent (.remarks f)
  /-- No loading is fixed, and one has no modifier. -/
  | free {i : Nat} {r : Relation} :
      (∀ r ∈ t.rows, r.isLoadingOf latent = true → r.isFixed = false) →
      t.First (fun r => r.isLoadingOf latent && r.modifier.isNone) i r →
      LoadingOutcome t latent (.fixes i)
  /-- All loadings have labels. -/
  | labelled {f : Finding} :
      (∀ r ∈ t.rows, r.isLoadingOf latent = true → ∃ label, r.modifier = some (.label label)) →
      f = .labelledLoadings latent
        ((t.rows.find? (Relation.isLoadingOf latent)).bind Relation.span) →
      f.HasKind .warning .unidentified → LoadingOutcome t latent (.remarks f)

/-- What becomes of the variance of a latent variable. Only the first row that is its variance
    matters. -/
inductive VarianceOutcome (t : Table) (latent : String) : Outcome → Prop
  /-- The variance has no modifier. -/
  | free {i : Nat} {r : Relation} :
      t.First (Relation.isVarianceOf latent) i r → r.modifier = none →
      VarianceOutcome t latent (.fixes i)
  /-- The variance is fixed already. -/
  | fixed {i : Nat} {r : Relation} {value : String} {f : Finding} :
      t.First (Relation.isVarianceOf latent) i r → r.modifier = some (.fixed value) →
      f = .fixedVariance latent value r.span → f.HasKind .note .alreadyScaled →
      VarianceOutcome t latent (.remarks f)
  /-- The variance has a label. -/
  | labelled {i : Nat} {r : Relation} {label : String} {f : Finding} :
      t.First (Relation.isVarianceOf latent) i r → r.modifier = some (.label label) →
      f = .labelledVariance latent label r.span → f.HasKind .warning .scalingConflict →
      VarianceOutcome t latent (.remarks f)
  /-- No row is the variance. -/
  | missing {f : Finding} :
      (∀ r ∈ t.rows, r.isVarianceOf latent = false) →
      f = .noVariance latent → f.HasKind .warning .unidentified →
      VarianceOutcome t latent (.remarks f)

/-- The table and the remarks that latent variables with these outcomes leave of a table. -/
structure ScaledBy (outcome : String → Outcome → Prop) (latents : List String) (t : Table)
    (result : Table × List Finding) : Prop where
  /-- Every latent variable has one outcome. -/
  unique : ∀ latent, ∃! o, outcome latent o
  /-- A row that an outcome fixes has the scale as its modifier, and is the same row else. -/
  fixes : ∀ latent ∈ latents, ∀ i, outcome latent (.fixes i) → ∀ r, t.rows[i]? = some r →
    result.1.rows[i]? = some { r with modifier := some (.fixed "1.0") }
  /-- All other rows are the same. -/
  keeps : ∀ i, (∀ latent ∈ latents, ¬outcome latent (.fixes i)) →
    result.1.rows[i]? = t.rows[i]?
  /-- What is remarked comes in the order of the variables, one remark for each outcome that is
      one. -/
  remarks : ∃ outcomes, List.Forall₂ outcome latents outcomes ∧
    result.2 = outcomes.filterMap Outcome.remark?

/-! ## First rows -/

theorem first_iff : t.First p i r ↔ t.rows.find? p = some r ∧ t.rows.findIdx p = i := by
  constructor
  · rintro ⟨hrow, hp, hleast⟩
    obtain ⟨hi, rfl⟩ := List.getElem?_eq_some_iff.1 hrow
    have hbefore (j : Nat) (hj : j < i) (hlt : j < t.rows.length) : p t.rows[j] = false :=
      hleast j hj _ (List.getElem?_eq_getElem hlt)
    refine ⟨List.find?_eq_some_iff_getElem.2 ⟨hp, i, hi, rfl, fun j hj => ?_⟩,
      (List.findIdx_eq hi).2 ⟨hp, fun j hj => hbefore j hj _⟩⟩
    rw [hbefore j hj, Bool.not_false]
  · rintro ⟨hfind, rfl⟩
    obtain ⟨hp, i, hi, rfl, hbefore⟩ := List.find?_eq_some_iff_getElem.1 hfind
    have hidx : t.rows.findIdx p = i :=
      (List.findIdx_eq hi).2 ⟨hp, fun j hj => (Bool.not_eq_true' _).mp (hbefore j hj)⟩
    rw [hidx]
    refine ⟨List.getElem?_eq_getElem hi, hp, fun j hj s hs => ?_⟩
    obtain ⟨-, rfl⟩ := List.getElem?_eq_some_iff.1 hs
    exact (Bool.not_eq_true' _).mp (hbefore j hj)

/-- The first row with a property is fixed at its place. -/
theorem fixFirst_eq_setModifier (p : Relation → Bool) (t : Table) :
    t.fixFirst p = t.setModifier (t.rows.findIdx p) (some (.fixed scalingValue)) := by
  obtain ⟨rows⟩ := t
  refine congrArg Table.mk ?_
  show setFirstModifier.go p _ rows = rows.modify (rows.findIdx p) _
  induction rows with
  | nil => rfl
  | cons r rows ih =>
    rw [setFirstModifier.go, List.findIdx_cons]
    cases hp : p r with
    | true => rfl
    | false =>
      rw [if_neg Bool.false_ne_true, ih]
      rfl

/-! ## The outcome of each latent variable -/

/-- The outcome for the loadings of a latent variable. -/
def loadingOutcome (t : Table) (latent : String) : Outcome :=
  match t.rows.find? fun r => r.isLoadingOf latent && r.isFixed with
  | some r => .remarks (.fixedLoading latent r.rhs r.span)
  | none =>
    if t.rows.any fun r => r.isLoadingOf latent && r.modifier.isNone then
      .fixes (t.rows.findIdx fun r => r.isLoadingOf latent && r.modifier.isNone)
    else
      .remarks (.labelledLoadings latent
        ((t.rows.find? (Relation.isLoadingOf latent)).bind Relation.span))

/-- The outcome for the variance of a latent variable. -/
def varianceOutcome (t : Table) (latent : String) : Outcome :=
  match t.rows.find? (Relation.isVarianceOf latent) with
  | none => .remarks (.noVariance latent)
  | some r =>
    match r.modifier with
    | none => .fixes (t.rows.findIdx (Relation.isVarianceOf latent))
    | some (.fixed value) => .remarks (.fixedVariance latent value r.span)
    | some (.label label) => .remarks (.labelledVariance latent label r.span)

theorem scaleLoading_eq (t : Table) (latent : String) : t.scaleLoading latent =
    ((t.loadingOutcome latent).apply t, (t.loadingOutcome latent).remark?.toList) := by
  rw [scaleLoading, loadingOutcome, fixFirst_eq_setModifier]
  cases t.rows.find? fun r => r.isLoadingOf latent && r.isFixed with
  | some r => rfl
  | none => cases t.rows.any fun r => r.isLoadingOf latent && r.modifier.isNone <;> rfl

theorem scaleLatentVariance_eq (t : Table) (latent : String) : t.scaleLatentVariance latent =
    ((t.varianceOutcome latent).apply t, (t.varianceOutcome latent).remark?.toList) := by
  rw [scaleLatentVariance, varianceOutcome, fixFirst_eq_setModifier]
  cases t.rows.find? (Relation.isVarianceOf latent) with
  | none => rfl
  | some r =>
    -- The three kinds of modifiers.
    rcases hmod : r.modifier with _ | value | label <;> simp only [hmod] <;> rfl

theorem find?_isFixed_eq_none_iff :
    (t.rows.find? fun r => r.isLoadingOf latent && r.isFixed) = none ↔
      ∀ r ∈ t.rows, r.isLoadingOf latent = true → r.isFixed = false := by
  simp only [List.find?_eq_none, Bool.and_eq_true, not_and, Bool.not_eq_true]

/-- If no loading is fixed and none is without modifier, all of them have labels. -/
theorem forall_label_iff :
    (∀ r ∈ t.rows, r.isLoadingOf latent = true → ∃ label, r.modifier = some (.label label)) ↔
      (t.rows.find? fun r => r.isLoadingOf latent && r.isFixed) = none ∧
        (t.rows.any fun r => r.isLoadingOf latent && r.modifier.isNone) = false := by
  rw [find?_isFixed_eq_none_iff, List.any_eq_false]
  constructor
  · intro h
    refine ⟨fun r hr hloading => ?_, fun r hr hnone => ?_⟩
    · obtain ⟨label, hlabel⟩ := h r hr hloading
      rw [Relation.isFixed, hlabel]
      rfl
    · obtain ⟨hloading, hnone⟩ := Bool.and_eq_true_iff.1 hnone
      obtain ⟨label, hlabel⟩ := h r hr hloading
      rw [hlabel] at hnone
      cases hnone
  · rintro ⟨hfixed, hnone⟩ r hr hloading
    cases hmod : r.modifier with
    | none => exact absurd (by rw [hloading, hmod]; rfl) (hnone r hr)
    | some m =>
      cases m with
      | label label => exact ⟨label, rfl⟩
      | fixed value =>
        have := hfixed r hr hloading
        rw [Relation.isFixed, hmod] at this
        cases this

theorem loadingOutcome_iff {o : Outcome} :
    t.LoadingOutcome latent o ↔ o = t.loadingOutcome latent := by
  rw [loadingOutcome]
  constructor
  · intro h
    cases h with
    | fixed hfirst hf => simp only [(first_iff.1 hfirst).1, hf]
    | free hfixed hfirst =>
      obtain ⟨hfind, hidx⟩ := first_iff.1 hfirst
      have hany : (t.rows.any fun r => r.isLoadingOf latent && r.modifier.isNone) = true := by
        rw [← List.isSome_find?, hfind]
        rfl
      simp only [find?_isFixed_eq_none_iff.2 hfixed, hany, hidx, if_true]
    | labelled hall hf =>
      obtain ⟨hfixed, hany⟩ := forall_label_iff.1 hall
      simp only [hfixed, hany, hf, Bool.false_eq_true, if_false]
  · rintro rfl
    split
    case h_1 r hr => exact .fixed (first_iff.2 ⟨hr, rfl⟩) rfl ⟨rfl, rfl⟩
    case h_2 hfixed =>
      split
      case isTrue hany =>
        rw [← List.isSome_find?] at hany
        obtain ⟨r, hr⟩ := Option.isSome_iff_exists.1 hany
        exact .free (find?_isFixed_eq_none_iff.1 hfixed) (first_iff.2 ⟨hr, rfl⟩)
      case isFalse hany =>
        exact .labelled (forall_label_iff.2 ⟨hfixed, Bool.eq_false_iff.2 hany⟩) rfl ⟨rfl, rfl⟩

theorem varianceOutcome_iff {o : Outcome} :
    t.VarianceOutcome latent o ↔ o = t.varianceOutcome latent := by
  rw [varianceOutcome]
  constructor
  · intro h
    cases h with
    | free hfirst hmod =>
      obtain ⟨hfind, hidx⟩ := first_iff.1 hfirst
      simp only [hfind, hmod, hidx]
    | fixed hfirst hmod hf => simp only [(first_iff.1 hfirst).1, hmod, hf]
    | labelled hfirst hmod hf => simp only [(first_iff.1 hfirst).1, hmod, hf]
    | missing hnone hf =>
      have hfind : t.rows.find? (Relation.isVarianceOf latent) = none :=
        List.find?_eq_none.2 fun r hr => Bool.eq_false_iff.1 (hnone r hr)
      simp only [hfind, hf]
  · rintro rfl
    split
    case h_1 hnone =>
      exact .missing (fun r hr => Bool.eq_false_iff.2 (List.find?_eq_none.1 hnone r hr)) rfl
        ⟨rfl, rfl⟩
    case h_2 r hr =>
      have hfirst := first_iff.2 ⟨hr, rfl⟩
      split
      case h_1 hmod => exact .free hfirst hmod
      case h_2 hmod => exact .fixed hfirst hmod rfl ⟨rfl, rfl⟩
      case h_3 hmod => exact .labelled hfirst hmod rfl ⟨rfl, rfl⟩

/-! ## One variable after the other -/

/-- A row that is fixed. -/
def scaled (r : Relation) : Relation :=
  { r with modifier := some (.fixed scalingValue) }

theorem getElem?_apply (o : Outcome) (t : Table) (i : Nat) :
    (o.apply t).rows[i]? = if o = .fixes i then t.rows[i]?.map scaled else t.rows[i]? := by
  cases o with
  | remarks f => rfl
  | fixes place =>
    rw [Outcome.apply, setModifier, List.getElem?_modify]
    by_cases hplace : place = i
    · simp only [if_pos hplace, if_pos (congrArg Outcome.fixes hplace)]
      rfl
    · simp only [if_neg hplace, if_neg (mt Outcome.fixes.inj hplace)]
      exact Option.map_id'

/-- Outcomes change the rows that they fix, and no other ones. -/
theorem getElem?_foldl_apply (outcomes : List Outcome) (t : Table) (i : Nat) :
    (outcomes.foldl (fun t o => o.apply t) t).rows[i]? =
      if .fixes i ∈ outcomes then t.rows[i]?.map scaled else t.rows[i]? := by
  induction outcomes generalizing t with
  | nil => rfl
  | cons o outcomes ih =>
    rw [List.foldl_cons, ih, getElem?_apply]
    by_cases ho : o = .fixes i
    · rw [if_pos ho, if_pos (List.mem_cons.2 (.inl ho.symm))]
      split
      -- Fixing a row once more is the same as fixing it once.
      · rw [Option.map_map]
        rfl
      · rfl
    · rw [if_neg ho]
      refine if_congr ?_ rfl rfl
      rw [List.mem_cons, or_iff_right (Ne.symm ho)]

/-- If the outcome for a variable does not depend on what is done for other ones, several variables
    one after the other have the outcomes that each of them has in the beginning. -/
theorem scaleEach_eq {scale : Table → String → Table × List Finding}
    {out : Table → String → Outcome}
    (hscale : ∀ t latent, scale t latent = ((out t latent).apply t, (out t latent).remark?.toList))
    (hframe : ∀ t name other, name ≠ other → out (scale t name).1 other = out t other)
    {latents : List String} (hlatents : latents.Nodup) (t : Table) :
    scaleEach scale t latents =
      ((latents.map (out t)).foldl (fun t o => o.apply t) t,
        (latents.map (out t)).filterMap Outcome.remark?) := by
  induction latents generalizing t with
  | nil => rfl
  | cons name latents ih =>
    obtain ⟨hname, hlatents⟩ := List.nodup_cons.1 hlatents
    have hout : latents.map (out (scale t name).1) = latents.map (out t) :=
      List.map_congr_left fun other hother => hframe t name other fun heq => hname (heq ▸ hother)
    show ((scaleEach scale (scale t name).1 latents).1,
      (scale t name).2 ++ (scaleEach scale (scale t name).1 latents).2) = _
    rw [ih hlatents, hout, hscale, List.map_cons, List.foldl_cons, List.filterMap_cons]
    cases (out t name).remark? <;> rfl

/-- What is remarked and which rows are fixed when each variable has its own outcome. -/
theorem scaledBy_scaleEach {scale : Table → String → Table × List Finding}
    {out : Table → String → Outcome} {outcome : String → Outcome → Prop}
    (hscale : ∀ t latent, scale t latent = ((out t latent).apply t, (out t latent).remark?.toList))
    (hframe : ∀ t name other, name ≠ other → out (scale t name).1 other = out t other)
    (houtcome : ∀ latent o, outcome latent o ↔ o = out t latent) {latents : List String}
    (hlatents : latents.Nodup) : ScaledBy outcome latents t (scaleEach scale t latents) := by
  have hfixes {i : Nat} :
      .fixes i ∈ latents.map (out t) ↔ ∃ latent ∈ latents, outcome latent (.fixes i) := by
    simp only [List.mem_map, houtcome, eq_comm]
  rw [scaleEach_eq hscale hframe hlatents]
  refine ⟨fun latent => ?_, fun latent hlatent i hout r hr => ?_, fun i hnone => ?_, ?_⟩
  · exact ⟨out t latent, (houtcome latent _).2 rfl, fun o ho => (houtcome latent o).1 ho⟩
  · rw [getElem?_foldl_apply, if_pos (hfixes.2 ⟨latent, hlatent, hout⟩), hr]
    rfl
  · refine (getElem?_foldl_apply _ t i).trans (if_neg fun hmem => ?_)
    obtain ⟨latent, hlatent, hout⟩ := hfixes.1 hmem
    exact hnone latent hlatent hout
  · refine ⟨latents.map (out t), ?_, rfl⟩
    rw [List.forall₂_map_right_iff, List.forall₂_same]
    exact fun latent _ => (houtcome latent _).2 rfl

/-! ## Rows of other variables -/

/-- The rows of different names are apart if a row belongs to one name at most, whatever modifier
    it has. -/
theorem apart_of_ne (owns : String → Relation → Bool)
    (howns : ∀ {a b r}, owns a r = true → owns b r = true → a = b)
    (hmod : ∀ name r modifier, owns name { r with modifier } = owns name r)
    (hp : ∀ r, p r = true → owns other r = true) (hq : ∀ r, q r = true → owns name r = true)
    (hne : name ≠ other) : Apart p q := by
  intro r modifier hr
  refine Bool.eq_false_iff.2 fun h => hne ?_
  have hother := hp _ h
  rw [hmod] at hother
  exact howns (hq r hr) hother

theorem Apart.findIdx_fixFirst (h : Apart p q) (t : Table) :
    (t.fixFirst q).rows.findIdx p = t.rows.findIdx p := by
  obtain ⟨rows⟩ := t
  show (setFirstModifier.go q _ rows).findIdx p = rows.findIdx p
  induction rows with
  | nil => rfl
  | cons r rows ih =>
    rw [setFirstModifier.go]
    split
    case isTrue hq => rw [List.findIdx_cons, List.findIdx_cons, h r _ hq, h.eq_false hq]
    case isFalse => rw [List.findIdx_cons, List.findIdx_cons, ih]

/-- Scaling the loadings of a variable does not matter to the outcome for another one. -/
theorem loadingOutcome_scaleLoading (t : Table) (hne : name ≠ other) :
    (t.scaleLoading name).1.loadingOutcome other = t.loadingOutcome other := by
  have hloading (q : Relation → Bool) (r : Relation)
      (h : (r.isLoadingOf other && q r) = true) : r.isLoadingOf other = true :=
    (Bool.and_eq_true_iff.1 h).1
  have happart (p : Relation → Bool) (hp : ∀ r, p r = true → r.isLoadingOf other = true) :
      Apart p fun r => r.isLoadingOf name && r.modifier.isNone :=
    apart_of_ne Relation.isLoadingOf eq_of_isLoadingOf (fun _ _ _ => rfl) hp
      (fun r h => (Bool.and_eq_true_iff.1 h).1) hne
  rcases t.scaleLoading_cases name with h | ⟨-, -, h⟩
  · rw [h]
  · rw [h, loadingOutcome, loadingOutcome, (happart _ (hloading _)).find?_fixFirst,
      (happart _ (hloading _)).any_fixFirst, (happart _ (hloading _)).findIdx_fixFirst,
      (happart _ fun _ h => h).find?_fixFirst]

/-- Scaling the variance of a variable does not matter to the outcome for another one. -/
theorem varianceOutcome_scaleLatentVariance (t : Table) (hne : name ≠ other) :
    (t.scaleLatentVariance name).1.varianceOutcome other = t.varianceOutcome other := by
  have happart : Apart (Relation.isVarianceOf other) (Relation.isVarianceOf name) :=
    apart_of_ne Relation.isVarianceOf eq_of_isVarianceOf (fun _ _ _ => rfl) (fun _ h => h)
      (fun _ h => h) hne
  rcases t.scaleLatentVariance_cases name with h | ⟨-, h⟩
  · rw [h]
  · rw [h, varianceOutcome, varianceOutcome, happart.find?_fixFirst, happart.findIdx_fixFirst]

/-! ## Lists of variables -/

variable {latents : List String}

theorem scaledBy_scaleLoadings (hlatents : latents.Nodup) (t : Table) :
    ScaledBy t.LoadingOutcome latents t (t.scaleLoadings latents) :=
  scaledBy_scaleEach scaleLoading_eq (fun t _ _ => loadingOutcome_scaleLoading t)
    (fun _ _ => loadingOutcome_iff) hlatents

theorem scaledBy_scaleLatentVariances (hlatents : latents.Nodup) (t : Table) :
    ScaledBy t.VarianceOutcome latents t (t.scaleLatentVariances latents) :=
  scaledBy_scaleEach scaleLatentVariance_eq (fun t _ _ => varianceOutcome_scaleLatentVariance t)
    (fun _ _ => varianceOutcome_iff) hlatents

/-- What is remarked is the outcome of some variable. -/
theorem ScaledBy.exists_of_mem {outcome : String → Outcome → Prop} {result : Table × List Finding}
    (h : ScaledBy outcome latents t result) (hf : f ∈ result.2) :
    ∃ latent ∈ latents, outcome latent (.remarks f) := by
  obtain ⟨outcomes, houtcomes, hremarks⟩ := h.remarks
  rw [hremarks] at hf
  obtain ⟨o, ho, hof⟩ := List.mem_filterMap.1 hf
  cases o with
  | fixes place => cases hof
  | remarks f' =>
    obtain rfl := Option.some.inj hof
    obtain ⟨i, hi⟩ := List.mem_iff_get.1 ho
    have hlt : i < latents.length := Nat.lt_of_lt_of_eq i.isLt houtcomes.length_eq.symm
    have hout := houtcomes.get hlt i.isLt
    rw [Fin.eta, hi] at hout
    exact ⟨latents.get ⟨i, hlt⟩, List.get_mem .., hout⟩

/-- Loadings that are scaled are left alone when they are to be scaled once more. -/
theorem scaleLoadings_idem (latents : List String) (t : Table) :
    ((t.scaleLoadings latents).1.scaleLoadings latents).1 = (t.scaleLoadings latents).1 :=
  scaleEach_eq_self fun latent hlatent =>
    scaleLoading_eq_self (t.loadingIsSet_scaleLoadings latents latent hlatent)

/-- Variances that are scaled are left alone when they are to be scaled once more. -/
theorem scaleLatentVariances_idem (latents : List String) (t : Table) :
    ((t.scaleLatentVariances latents).1.scaleLatentVariances latents).1 =
      (t.scaleLatentVariances latents).1 :=
  scaleEach_eq_self fun latent hlatent =>
    scaleLatentVariance_eq_self (t.varianceIsSet_scaleLatentVariances latents latent hlatent)

/-- A variable that has a variance is not remarked to lack one. -/
theorem VarianceOutcome.ne_unidentified (h : t.VarianceOutcome latent (.remarks f))
    (hvariance : t.rows.any (Relation.isVarianceOf latent) = true) :
    f.diagnostic.code ≠ some .unidentified := by
  cases h with
  | fixed _ _ _ hkind => rw [hkind.2]; exact fun heq => by cases heq
  | labelled _ _ _ hkind => rw [hkind.2]; exact fun heq => by cases heq
  | missing hnone =>
    obtain ⟨r, hr, hrow⟩ := List.any_eq_true.1 hvariance
    rw [hnone r hr] at hrow
    cases hrow

/-- If a model that is read is completed by variances, all its latent variables have one. -/
theorem any_isVarianceOf_of_parse {o : Options} {source : String} {m : Model}
    (hm : Model.parse source = .ok m) (hvariances : o.addVariances = true)
    (hlatent : latent ∈ m.table.latents) :
    (m.table.complete o m.table.classify).rows.any (Relation.isVarianceOf latent) = true := by
  obtain ⟨-, -, -, -, -, hread, -⟩ := Model.exists_from_of_parse hm
  have hmentions := mentions_of_mem_latents hlatent
  -- Not so in a table with loadings of the mark of intercepts, but no text has such loadings.
  have hne : latent ≠ intercept := hmentions.ne_intercept fun r hr => (hread r hr).ne_intercept
  exact (complete_complete o m.table).variances hvariances latent
    ((Extends.complete o m.table).mem_variableNames_iff.2 (mem_variableNames.2 ⟨hmentions, hne⟩))

/-- Each of several latent variables has the outcome for its loadings, and for its variance, that
    its rows have in the beginning, whatever other variables are scaled with it; only the rows that
    are fixed by these outcomes change, and only in their modifiers, and scaling once more changes
    nothing. When a text is compiled with variances for all variables, no latent variable lacks the
    variance that is to be fixed. -/
theorem scaledBy_outcomes (hlatents : latents.Nodup) (t : Table) :
    ScaledBy t.LoadingOutcome latents t (t.scaleLoadings latents) ∧
      ((t.scaleLoadings latents).1.scaleLoadings latents).1 = (t.scaleLoadings latents).1 ∧
      ScaledBy t.VarianceOutcome latents t (t.scaleLatentVariances latents) ∧
      ((t.scaleLatentVariances latents).1.scaleLatentVariances latents).1 =
        (t.scaleLatentVariances latents).1 ∧
      ∀ (o : Options) (source : String) (m : CompiledModel), compile o source = .ok m →
        o.addVariances = true → o.scaleLatentVariances = true →
        ∃ (p : Model) (variances loadings : Table × List Finding), Model.parse source = .ok p ∧
          variances = (p.table.complete o p.table.classify).scaleLatentVariances p.table.latents ∧
          loadings = (if o.scaleLoadings then variances.1.scaleLoadings p.table.latents
            else (variances.1, [])) ∧
          m.table = loadings.1 ∧ m.remarks = p.remarks ++ (variances.2 ++ loadings.2) ∧
          ∀ f ∈ variances.2, f.diagnostic.code ≠ some .unidentified := by
  refine ⟨scaledBy_scaleLoadings hlatents t, scaleLoadings_idem latents t,
    scaledBy_scaleLatentVariances hlatents t, scaleLatentVariances_idem latents t,
    fun o source m hm hvariances hscale => ?_⟩
  obtain ⟨p, hp, rfl⟩ := compile_eq_ok_iff.1 hm
  have hcompiled : (p.compiled o).table = (identify o p.table.latents
        (p.table.complete o p.table.classify)).1 ∧
      (p.compiled o).remarks = p.remarks ++ (identify o p.table.latents
        (p.table.complete o p.table.classify)).2 := ⟨rfl, rfl⟩
  rw [identify, hscale] at hcompiled
  refine ⟨p, _, _, hp, rfl, rfl, hcompiled.1, hcompiled.2, fun f hf => ?_⟩
  obtain ⟨latent, hlatent, hout⟩ :=
    (scaledBy_scaleLatentVariances p.table.nodup_latents _).exists_of_mem hf
  exact hout.ne_unidentified (any_isVarianceOf_of_parse hp hvariances hlatent)

/-- Of `f`, a loading is fixed behind one that is free, and the variance is free in front of one
    that is fixed. Of `g`, a loading has a label in front of one that is free, and the variance has
    a label. Of `h`, the only loading has a label, and there is no variance. -/
def mixedRows : Table :=
  ⟨[{ lhs := "f", op := .loading, rhs := "x" },
    { lhs := "f", op := .loading, rhs := "y", modifier := some (.fixed "2") },
    { lhs := "g", op := .loading, rhs := "x", modifier := some (.label "a") },
    { lhs := "g", op := .loading, rhs := "z" },
    { lhs := "h", op := .loading, rhs := "w", modifier := some (.label "b") },
    { lhs := "f", op := .covariance, rhs := "f" },
    { lhs := "f", op := .covariance, rhs := "f", modifier := some (.fixed "2") },
    { lhs := "g", op := .covariance, rhs := "g", modifier := some (.label "c") }]⟩

/-- All outcomes, and a text whose latent variable has no variance of its own. -/
theorem scaledBy_outcomes_mixedRows :
    ["h", "g", "f"].Nodup ∧
      ScaledBy mixedRows.LoadingOutcome ["h", "g", "f"] mixedRows
        (mixedRows.scaleLoadings ["h", "g", "f"]) ∧
      mixedRows.scaleLoadings ["h", "g", "f"] =
        (mixedRows.setModifier 3 (some (.fixed "1.0")),
          [.labelledLoadings "h" none, .fixedLoading "f" "y" none]) ∧
      ScaledBy mixedRows.VarianceOutcome ["h", "g", "f"] mixedRows
        (mixedRows.scaleLatentVariances ["h", "g", "f"]) ∧
      mixedRows.scaleLatentVariances ["h", "g", "f"] =
        (mixedRows.setModifier 5 (some (.fixed "1.0")),
          [.noVariance "h", .labelledVariance "g" "c" none]) ∧
      ∃ m, compile { scaleLatentVariances := true } "f =~ x" = .ok m ∧
        ∃ (p : Model) (variances loadings : Table × List Finding),
          Model.parse "f =~ x" = .ok p ∧
          variances = (p.table.complete { scaleLatentVariances := true }
            p.table.classify).scaleLatentVariances p.table.latents ∧
          loadings = variances.1.scaleLoadings p.table.latents ∧
          m.table = loadings.1 ∧ m.remarks = p.remarks ++ (variances.2 ++ loadings.2) ∧
          ∀ f ∈ variances.2, f.diagnostic.code ≠ some .unidentified := by
  obtain ⟨m, hm⟩ : ∃ m, (compile { scaleLatentVariances := true } "f =~ x").toOption = some m :=
    Option.isSome_iff_exists.1 (by decide +kernel)
  have hcompile := CompiledModel.eq_ok_of_toOption hm
  have hnodup : ["h", "g", "f"].Nodup := by decide
  obtain ⟨hloadings, -, hvariances, -, hcompiled⟩ := scaledBy_outcomes hnodup mixedRows
  exact ⟨hnodup, hloadings, by decide +kernel, hvariances, by decide +kernel, m, hcompile,
    hcompiled _ _ m hcompile rfl rfl⟩

end Table

end StructuralModel
