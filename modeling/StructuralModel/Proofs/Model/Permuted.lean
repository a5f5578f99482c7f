import Mathlib.Data.List.Perm.Basic
import StructuralModel.Proofs.Model.Independent

/-!
# Order of rows

Completion asks which names the rows mention and whether some row has a property, and neither
depends on the order of the rows. But the variables are visited in the order in which they appear.
So if the rows of a table are permuted, the rows that complete it are permuted as well, and the two
sides of a covariance among them may be swapped (`Relation.Turns`): two variables are a pair in the
order in which they are visited.

Covariances are looked for in the table that has those already that were appended for earlier pairs
(`addCovariance`). No pair comes twice, in one order or the other, so that none of them is found
(`foldl_addCovariance`).

* `pairs_perm`: the pairs of a permuted list, some of them swapped, are permuted;
* `complete_perm`: so are completed tables, some of the covariances that were appended swapped.
-/

namespace StructuralModel

/-- A row is as it was, or it is a covariance and its sides are swapped. -/
def Relation.Turns (r r' : Relation) : Prop :=
  r' = r ∨ r.op = .covariance ∧ r' = { r with lhs := r.rhs, rhs := r.lhs }

/-- Two pairs have the same members. -/
def SamePair {α : Type} (p q : α × α) : Prop :=
  q = p ∨ q = p.swap

/-- The members of two lists are the same up to `R`, in whichever order. -/
def PermUpTo {α : Type} (R : α → α → Prop) (l l' : List α) : Prop :=
  ∃ k, List.Forall₂ R l k ∧ k.Perm l'

theorem Relation.Turns.refl (r : Relation) : r.Turns r :=
  .inl rfl

theorem SamePair.refl {α : Type} (p : α × α) : SamePair p p :=
  .inl rfl

theorem SamePair.trans {α : Type} {p q s : α × α} (h : SamePair p q) (h' : SamePair q s) :
    SamePair p s := by
  rcases h with rfl | rfl
  · exact h'
  · rcases h' with rfl | rfl
    · exact .inr rfl
    · exact .inl p.swap_swap

/-! ## Permutations up to a relation -/

namespace PermUpTo

variable {α β : Type} {R : α → α → Prop} {l l' k k' : List α}

theorem of_perm (hR : ∀ a, R a a) (h : l.Perm l') : PermUpTo R l l' :=
  ⟨l, List.forall₂_same.2 fun a _ => hR a, h⟩

theorem append (h : PermUpTo R l l') (h' : PermUpTo R k k') : PermUpTo R (l ++ k) (l' ++ k') := by
  obtain ⟨m, hm, hperm⟩ := h
  obtain ⟨m', hm', hperm'⟩ := h'
  exact ⟨m ++ m', List.rel_append hm hm', hperm.append hperm'⟩

theorem forall₂_trans (hR : ∀ a b c, R a b → R b c → R a c) (h : List.Forall₂ R l k)
    (h' : List.Forall₂ R k k') : List.Forall₂ R l k' := by
  induction h generalizing k' with
  | nil => exact h'
  | cons hab _ ih =>
    obtain ⟨c, rest, hbc, hrest, rfl⟩ := List.forall₂_cons_left_iff.1 h'
    exact .cons (hR _ _ _ hab hbc) (ih hrest)

theorem trans (hR : ∀ a b c, R a b → R b c → R a c) (h : PermUpTo R l k) (h' : PermUpTo R k l') :
    PermUpTo R l l' := by
  obtain ⟨m, hm, hperm⟩ := h
  obtain ⟨m', hm', hperm'⟩ := h'
  -- What is related to a permuted list is the permutation of a related one.
  obtain ⟨m'', hm'', hperm''⟩ := List.perm_comp_forall₂ hperm hm'
  exact ⟨m'', forall₂_trans hR hm hm'', hperm''.trans hperm'⟩

/-- A property that related members share keeps related members. -/
theorem filter {p : α → Bool} (hp : ∀ a b, R a b → p a = p b) (h : PermUpTo R l l') :
    PermUpTo R (l.filter p) (l'.filter p) := by
  obtain ⟨m, hm, hperm⟩ := h
  have hkept : List.Forall₂ R (l.filter p) (m.filter p) :=
    List.rel_filter (fun a b hab => Bool.eq_iff_iff.1 (hp a b hab)) hm
  exact ⟨m.filter p, hkept, hperm.filter p⟩

theorem map {S : β → β → Prop} {f : α → β} (hf : ∀ a b, R a b → S (f a) (f b))
    (h : PermUpTo R l l') : PermUpTo S (l.map f) (l'.map f) := by
  obtain ⟨m, hm, hperm⟩ := h
  exact ⟨m.map f, List.rel_map (fun a b => hf a b) hm, hperm.map f⟩

theorem ite (on : Bool) (h : PermUpTo R l l') :
    PermUpTo R (if on then l else []) (if on then l' else []) := by
  cases on with
  | true => exact h
  | false => exact ⟨[], .nil, .nil⟩

end PermUpTo

namespace Table

variable {t u : Table} {names names' : List String}

/-! ## Pairs -/

/-- The pairs of a permuted list are permuted, some of them swapped. -/
theorem pairs_perm {α : Type} {l l' : List α} (h : l.Perm l') :
    PermUpTo SamePair (pairs l) (pairs l') := by
  -- Only where two neighbours change places a pair is swapped: the one of the two.
  induction h with
  | nil => exact .of_perm .refl .nil
  | cons a h ih => exact (PermUpTo.of_perm .refl (h.map _)).append ih
  | swap a b l =>
    refine ⟨(a, b) :: (l.map (b, ·) ++ pairs (a :: l)), ?_, ?_⟩
    · exact .cons (.inr rfl) (List.forall₂_same.2 fun p _ => .refl p)
    · rw [pairs, pairs, pairs, List.map_cons, List.cons_append, ← List.append_assoc,
        ← List.append_assoc]
      exact (List.perm_append_comm.append_right _).cons _
  | trans _ _ ih ih' => exact ih.trans (fun _ _ _ => .trans) ih'

/-- Of the pairs of a list without repetitions none comes twice, in one order or the other. -/
theorem pairwise_pairs {α : Type} {l : List α} (h : l.Nodup) :
    (pairs l).Pairwise fun p q => ¬SamePair p q := by
  induction l with
  | nil => exact .nil
  | cons a l ih =>
    obtain ⟨ha, hl⟩ := List.nodup_cons.1 h
    refine List.pairwise_append.2 ⟨?_, ih hl, ?_⟩
    · refine List.pairwise_map.2 (hl.imp_of_mem fun {b c} hb _ hne hsame => ?_)
      rcases hsame with heq | heq
      · exact hne (Prod.mk.inj heq).2.symm
      · exact ha ((Prod.mk.inj heq).1 ▸ hb)
    · rintro p hp ⟨b, c⟩ hbc hsame
      obtain ⟨d, -, rfl⟩ := List.mem_map.1 hp
      obtain ⟨hb, hc⟩ := mem_of_mem_pairs hbc
      rcases hsame with heq | heq
      · exact ha ((Prod.mk.inj heq).1 ▸ hb)
      · obtain rfl : c = a := (Prod.mk.inj heq).2
        exact ha hc

/-! ## One covariance after the other -/

/-- Appends the covariance of a pair of variables unless some row joins them. -/
def addCovariance (t : Table) (p : String × String) : Table :=
  if t.rows.any (Relation.connects p.1 p.2) then t else t.append [covarianceOf p]

theorem not_connects_covarianceOf {p q : String × String} (h : ¬SamePair p q) :
    (covarianceOf p).connects q.1 q.2 = false := by
  obtain ⟨a, b⟩ := p
  obtain ⟨c, d⟩ := q
  refine Bool.eq_false_iff.2 fun hconnects => h ?_
  simp only [Relation.connects, covarianceOf, beq_self_eq_true, Bool.true_and, Bool.or_eq_true,
    Bool.and_eq_true, beq_iff_eq] at hconnects
  rcases hconnects with ⟨rfl, rfl⟩ | ⟨rfl, rfl⟩
  · exact .inl rfl
  · exact .inr rfl

/-- A covariance that was appended for another pair is not found. -/
theorem any_addCovariance {p q : String × String} (h : ¬SamePair p q) (t : Table) :
    (t.addCovariance p).rows.any (Relation.connects q.1 q.2) =
      t.rows.any (Relation.connects q.1 q.2) := by
  rw [addCovariance]
  split
  case isTrue => rfl
  case isFalse =>
    refine any_append (fun r hr => ?_) t
    rw [List.mem_singleton.1 hr]
    exact not_connects_covarianceOf h

/-- Appending one covariance after the other appends those that were missing at the beginning. -/
theorem foldl_addCovariance_eq {ps : List (String × String)}
    (h : ps.Pairwise fun p q => ¬SamePair p q) (t : Table) :
    ps.foldl addCovariance t = t.append
      ((ps.filter fun p => !t.rows.any (Relation.connects p.1 p.2)).map covarianceOf) := by
  -- By induction along the pairs: the first one does not matter to the others.
  induction ps generalizing t with
  | nil => exact (append_nil t).symm
  | cons p ps ih =>
    obtain ⟨hp, hps⟩ := List.pairwise_cons.1 h
    have hrest : (ps.filter fun q => !(t.addCovariance p).rows.any (Relation.connects q.1 q.2)) =
        ps.filter fun q => !t.rows.any (Relation.connects q.1 q.2) :=
      List.filter_congr fun q hq => congrArg _ (any_addCovariance (hp q hq) t)
    rw [List.foldl_cons, ih hps, hrest, List.filter_cons, addCovariance]
    cases t.rows.any (Relation.connects p.1 p.2) with
    | true => rfl
    | false => exact append_append t _ _

/-- Covariances can be appended one after the other, each one looked for in the table that has the
    earlier ones. -/
theorem foldl_addCovariance (hnames : names.Nodup) (t : Table) :
    (pairs (names.filter t.isExogenous)).foldl addCovariance t = t.addCovariances names :=
  foldl_addCovariance_eq (pairwise_pairs (hnames.filter _)) t

/-! ## Permuted tables -/

theorem isExogenous_perm (h : t.rows.Perm u.rows) : t.isExogenous = u.isExogenous := by
  funext name
  rw [isExogenous, isExogenous, h.any_eq]

theorem latents_perm (h : t.rows.Perm u.rows) : t.latents.Perm u.latents := by
  refine (List.perm_ext_iff_of_nodup (nodup_eraseDups _) (nodup_eraseDups _)).2 fun name => ?_
  rw [List.mem_eraseDups, List.mem_eraseDups, ((h.filter _).map _).mem_iff]

theorem mentions_perm (h : t.rows.Perm u.rows) {name : String} :
    t.Mentions name ↔ u.Mentions name :=
  exists_congr fun _ => and_congr_left' h.mem_iff

theorem variableNames_perm (h : t.rows.Perm u.rows) : t.variableNames.Perm u.variableNames := by
  refine (List.perm_ext_iff_of_nodup (nodup_eraseDups _) (nodup_eraseDups _)).2 fun name => ?_
  exact mem_variableNames.trans ((and_congr_left' (mentions_perm h)).trans mem_variableNames.symm)

theorem manifests_perm (h : t.rows.Perm u.rows) :
    t.classify.manifests.Perm u.classify.manifests := by
  have hlatent : (fun name => !t.latents.contains name) = fun name => !u.latents.contains name := by
    funext name
    rw [(latents_perm h).contains_eq]
  rw [classify, classify, hlatent]
  exact (variableNames_perm h).filter _

theorem missingVariances_perm (h : t.rows.Perm u.rows) :
    t.missingVariances.Perm u.missingVariances := by
  have hrow (name : String) : t.rows.any (Relation.isVarianceOf name) =
      u.rows.any (Relation.isVarianceOf name) := h.any_eq
  simp only [missingVariances, hrow]
  exact ((variableNames_perm h).filter _).map _

theorem missingIntercepts_perm (h : t.rows.Perm u.rows) (hnames : names.Perm names') :
    (t.missingIntercepts names).Perm (u.missingIntercepts names') := by
  have hrow (name : String) : t.rows.any (Relation.isInterceptOf name) =
      u.rows.any (Relation.isInterceptOf name) := h.any_eq
  simp only [missingIntercepts, hrow]
  exact (hnames.filter _).map _

theorem turns_covarianceOf {p q : String × String} (h : SamePair p q) :
    (covarianceOf p).Turns (covarianceOf q) := by
  rcases h with rfl | rfl
  · exact .refl _
  · exact .inr ⟨rfl, rfl⟩

theorem connects_of_samePair {p q : String × String} (h : SamePair p q) :
    Relation.connects p.1 p.2 = Relation.connects q.1 q.2 := by
  rcases h with rfl | rfl
  · rfl
  · exact connects_comm _ _

/-- The covariances that permuted tables lack are permuted, some of them swapped. -/
theorem missingCovariances_perm (h : t.rows.Perm u.rows) (hnames : names.Perm names') :
    PermUpTo Relation.Turns (t.missingCovariances names) (u.missingCovariances names') := by
  have hrow (a b : String) : t.rows.any (Relation.connects a b) =
      u.rows.any (Relation.connects a b) := h.any_eq
  simp only [missingCovariances, hrow, isExogenous_perm h]
  refine .map (fun p q => turns_covarianceOf) (.filter (fun p q hpq => ?_)
    (pairs_perm (hnames.filter _)))
  exact congrArg (fun connects => !u.rows.any connects) (connects_of_samePair hpq)

theorem completion_perm (o : Options) (h : t.rows.Perm u.rows) :
    PermUpTo Relation.Turns (t.completion o) (u.completion o) := by
  have hvariances := PermUpTo.of_perm Relation.Turns.refl (missingVariances_perm h)
  have hintercepts := PermUpTo.of_perm Relation.Turns.refl
    (missingIntercepts_perm h (manifests_perm h))
  have hlatent := missingCovariances_perm h (latents_perm h)
  have hmanifest := missingCovariances_perm h (manifests_perm h)
  rw [completion_eq, completion_eq]
  exact (((hvariances.ite _).append (hintercepts.ite _)).append (hlatent.ite _)).append
    (hmanifest.ite _)

/-- If two tables have the same rows in whichever order, and each one is completed with the classes
    of its own variables, the two tables that come out have the same rows in whichever order, once
    the sides of some of the covariances that were appended are swapped. -/
theorem complete_perm (o : Options) {t u : Table} (h : t.rows.Perm u.rows) :
    ∃ added turned, (t.complete o t.classify).rows = t.rows ++ added ∧
      List.Forall₂ Relation.Turns added turned ∧
      (t.rows ++ turned).Perm (u.complete o u.classify).rows := by
  obtain ⟨turned, hturned, hperm⟩ := completion_perm o h
  rw [complete_eq_append, complete_eq_append]
  exact ⟨t.completion o, turned, rfl, hturned, h.append hperm⟩

/-- A variable with two predictors. -/
def twoPredictors : Table :=
  ⟨[{ lhs := "y", op := .regression, rhs := "a" }, { lhs := "y", op := .regression, rhs := "b" }]⟩

/-- If these two rows change places, the two predictors change sides in their covariance. -/
theorem complete_perm_twoPredictors :
    ∃ u : Table, u.rows = twoPredictors.rows.reverse ∧ twoPredictors.rows.Perm u.rows ∧
      ¬(twoPredictors.complete {} twoPredictors.classify).rows.Perm
        (u.complete {} u.classify).rows ∧
      ∃ added turned,
        (twoPredictors.complete {} twoPredictors.classify).rows = twoPredictors.rows ++ added ∧
        List.Forall₂ Relation.Turns added turned ∧
        (twoPredictors.rows ++ turned).Perm (u.complete {} u.classify).rows := by
  have hperm : twoPredictors.rows.Perm twoPredictors.rows.reverse :=
    (List.reverse_perm _).symm
  exact ⟨⟨twoPredictors.rows.reverse⟩, rfl, hperm, by decide +kernel, complete_perm {} hperm⟩

end Table

end StructuralModel
