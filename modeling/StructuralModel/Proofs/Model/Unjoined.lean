import StructuralModel.Proofs.Model.Appended
import StructuralModel.Proofs.Variables

/-!
# Pairs of variables that are not joined

Covariances are appended for the pairs of given variables that nothing predicts and no row joins
(`Table.Unjoined`), one row for each pair. The rows stand in the lexicographic order of the places
that the members of the pairs have among the variables (`Before`), and the member that comes first
is the left side.

* `mem_pairs_iff`, `pairwise_before_pairs`: which pairs a list has, and in which order;
* `appends_unjoined`: what is appended, what it leaves as it is, and that nothing is appended later.
-/

namespace StructuralModel.Table

/-! ## Places of pairs -/

section

variable {α : Type} [BEq α] [LawfulBEq α] {l : List α}

/-- In lexicographic order of the places that their members have in a list, the pair `p` comes
    before the pair `q`. -/
def Before (l : List α) (p q : α × α) : Prop :=
  l.idxOf p.1 < l.idxOf q.1 ∨ p.1 = q.1 ∧ l.idxOf p.2 < l.idxOf q.2

theorem pairwise_idxOf_of_nodup (h : l.Nodup) : l.Pairwise fun a b => l.idxOf a < l.idxOf b := by
  refine List.pairwise_iff_getElem.2 fun i j hi hj hij => ?_
  rwa [h.idxOf_getElem i hi, h.idxOf_getElem j hj]

/-- The pairs of a list are those of a member and one behind it. -/
theorem mem_pairs_iff (h : l.Nodup) {a b : α} :
    (a, b) ∈ pairs l ↔ a ∈ l ∧ b ∈ l ∧ l.idxOf a < l.idxOf b := by
  induction l with
  | nil => simp [pairs]
  | cons x l ih =>
    obtain ⟨hx, hl⟩ := List.nodup_cons.1 h
    have hidx {c : α} (hc : c ∈ l) : (x :: l).idxOf c = l.idxOf c + 1 :=
      List.idxOf_cons_ne l fun heq => hx (heq ▸ hc)
    rw [pairs, List.mem_append, List.mem_map, ih hl]
    constructor
    · rintro (⟨c, hc, heq⟩ | ⟨ha, hb, hlt⟩)
      · obtain ⟨rfl, rfl⟩ := Prod.mk.inj heq
        refine ⟨List.mem_cons_self, List.mem_cons_of_mem _ hc, ?_⟩
        rw [List.idxOf_cons_self, hidx hc]
        exact Nat.succ_pos _
      · refine ⟨List.mem_cons_of_mem _ ha, List.mem_cons_of_mem _ hb, ?_⟩
        rw [hidx ha, hidx hb]
        exact Nat.succ_lt_succ hlt
    · rintro ⟨ha, hb, hlt⟩
      -- Nothing is in front of the head, so the second member is behind it.
      rcases List.mem_cons.1 hb with rfl | hbl
      · rw [List.idxOf_cons_self] at hlt
        exact absurd hlt (Nat.not_lt_zero _)
      · rcases List.mem_cons.1 ha with rfl | hal
        · exact .inl ⟨b, hbl, rfl⟩
        · rw [hidx hal, hidx hbl] at hlt
          exact .inr ⟨hal, hbl, Nat.lt_of_succ_lt_succ hlt⟩

/-- The pairs of a list are in lexicographic order. -/
theorem pairwise_before_pairs (h : l.Nodup) : (pairs l).Pairwise (Before l) := by
  induction l with
  | nil => exact .nil
  | cons x l ih =>
    obtain ⟨hx, hl⟩ := List.nodup_cons.1 h
    have hidx {c : α} (hc : c ∈ l) : (x :: l).idxOf c = l.idxOf c + 1 :=
      List.idxOf_cons_ne l fun heq => hx (heq ▸ hc)
    refine List.pairwise_append.2 ⟨?_, ?_, ?_⟩
    · -- Pairs with the head are in the order of their second members.
      refine List.pairwise_map.2 ((pairwise_idxOf_of_nodup hl).imp_of_mem ?_)
      intro b c hb hc hlt
      refine .inr ⟨rfl, ?_⟩
      rw [hidx hb, hidx hc]
      exact Nat.succ_lt_succ hlt
    · refine (ih hl).imp_of_mem ?_
      rintro ⟨a, b⟩ ⟨c, d⟩ hab hcd hbefore
      obtain ⟨ha, hb⟩ := mem_of_mem_pairs hab
      obtain ⟨hc, hd⟩ := mem_of_mem_pairs hcd
      simp only [Before] at hbefore ⊢
      rwa [hidx ha, hidx hb, hidx hc, hidx hd, Nat.add_lt_add_iff_right, Nat.add_lt_add_iff_right]
    · rintro p hp ⟨c, d⟩ hcd
      obtain ⟨b, -, rfl⟩ := List.mem_map.1 hp
      refine .inl ?_
      rw [List.idxOf_cons_self, hidx (mem_of_mem_pairs hcd).1]
      exact Nat.succ_pos _

end

/-! ## Pairs that lack a covariance -/

variable {t : Table} {names : List String}

/-- A variable of a list and one behind it that nothing predicts and no row joins. -/
structure Unjoined (names : List String) (t : Table) (p : String × String) : Prop where
  fst_mem : p.1 ∈ names
  snd_mem : p.2 ∈ names
  lt : names.idxOf p.1 < names.idxOf p.2
  fst_exogenous : t.isExogenous p.1 = true
  snd_exogenous : t.isExogenous p.2 = true
  apart : ∀ r ∈ t.rows, r.connects p.1 p.2 = false

/-- The pairs that lack a covariance, in the order in which they are visited. -/
def unjoined (names : List String) (t : Table) : List (String × String) :=
  (pairs (names.filter t.isExogenous)).filter fun p =>
    !t.rows.any (Relation.connects p.1 p.2)

theorem missingCovariances_eq (names : List String) (t : Table) :
    t.missingCovariances names = (t.unjoined names).map covarianceOf :=
  rfl

theorem mem_unjoined_iff (hnames : names.Nodup) {p : String × String} :
    p ∈ t.unjoined names ↔ t.Unjoined names p := by
  obtain ⟨a, b⟩ := p
  rw [unjoined, List.mem_filter, mem_pairs_iff (hnames.filter _), List.mem_filter, List.mem_filter,
    any_eq_false_iff]
  constructor
  · rintro ⟨⟨⟨ha, hxa⟩, ⟨hb, hxb⟩, hlt⟩, hapart⟩
    exact ⟨ha, hb, (idxOf_filter_lt_iff names hxa hxb).1 hlt, hxa, hxb, hapart⟩
  · rintro ⟨ha, hb, hlt, hxa, hxb, hapart⟩
    exact ⟨⟨⟨ha, hxa⟩, ⟨hb, hxb⟩, (idxOf_filter_lt_iff names hxa hxb).2 hlt⟩, hapart⟩

theorem pairwise_before_unjoined (hnames : names.Nodup) (t : Table) :
    (t.unjoined names).Pairwise (Before names) := by
  have hpairs := (pairwise_before_pairs (hnames.filter t.isExogenous)).filter fun p =>
    !t.rows.any (Relation.connects p.1 p.2)
  refine hpairs.imp_of_mem fun {p q} hp hq hbefore => ?_
  have hp := (mem_unjoined_iff hnames).1 hp
  have hq := (mem_unjoined_iff hnames).1 hq
  -- Variables that are predicted are left out, and the others keep their order.
  exact hbefore.imp (idxOf_filter_lt_iff names hp.fst_exogenous hq.fst_exogenous).1
    fun ⟨heq, hlt⟩ => ⟨heq, (idxOf_filter_lt_iff names hp.snd_exogenous hq.snd_exogenous).1 hlt⟩

/-- A covariance predicts nothing. -/
theorem isExogenous_append_covariances (ps : List (String × String)) (t : Table) (name : String) :
    (t.append (ps.map covarianceOf)).isExogenous name = t.isExogenous name := by
  rw [isExogenous, isExogenous, any_append fun r hr => ?_]
  obtain ⟨p, -, rfl⟩ := List.mem_map.1 hr
  rfl

/-- One covariance is appended for each pair of the given variables that lacks one, in order, and
    they are counted. Nothing is predicted by them. Then any two of the variables that nothing
    predicts are joined, and whatever steps are run next, nothing more is appended for these
    variables. -/
theorem appends_unjoined (hnames : names.Nodup) (t : Table) :
    ∃ ps : List (String × String), (∀ p, p ∈ ps ↔ t.Unjoined names p) ∧
      ps.Pairwise (Before names) ∧
      (Step.covariances names).run t = (t.append (ps.map covarianceOf), ps.length) ∧
      (∀ name, (t.append (ps.map covarianceOf)).isExogenous name = t.isExogenous name) ∧
      (t.append (ps.map covarianceOf)).Covary names ∧
      ∀ steps : List Step, (Step.covariances names).run
          (Step.runAll (t.append (ps.map covarianceOf)) steps).1 =
        ((Step.runAll (t.append (ps.map covarianceOf)) steps).1, 0) := by
  have hnodup : (Step.covariances names).names.Nodup := hnames
  have hrun : (Step.covariances names).run t =
      (t.append ((t.unjoined names).map covarianceOf), (t.unjoined names).length) := by
    rw [Step.run_eq hnodup, Step.missing, missingCovariances_eq, List.length_map]
  have hcovary : (t.append ((t.unjoined names).map covarianceOf)).Covary names := by
    have hdone := Step.done_run hnodup t
    rwa [hrun] at hdone
  exact ⟨t.unjoined names, fun p => mem_unjoined_iff hnames, pairwise_before_unjoined hnames t,
    hrun, isExogenous_append_covariances _ t, hcovary, fun steps =>
      Step.run_of_done hnodup (hcovary.mono (Step.prefix_runAll steps _))⟩

/-- A variable with three predictors, two of which are joined. -/
def threePredictors : Table :=
  ⟨[{ lhs := "y", op := .regression, rhs := "a" }, { lhs := "y", op := .regression, rhs := "b" },
    { lhs := "y", op := .regression, rhs := "c" }, { lhs := "c", op := .covariance, rhs := "a" }]⟩

/-- Two pairs of the predictors lack a covariance. -/
theorem appends_unjoined_threePredictors :
    ["y", "a", "b", "c"].Nodup ∧
      (Step.covariances ["y", "a", "b", "c"]).run threePredictors =
        (threePredictors.append [{ lhs := "a", op := .covariance, rhs := "b" },
          { lhs := "b", op := .covariance, rhs := "c" }], 2) ∧
      ∃ ps : List (String × String),
        (∀ p, p ∈ ps ↔ threePredictors.Unjoined ["y", "a", "b", "c"] p) ∧
        ps.Pairwise (Before ["y", "a", "b", "c"]) ∧
        (Step.covariances ["y", "a", "b", "c"]).run threePredictors =
          (threePredictors.append (ps.map covarianceOf), ps.length) ∧
        (∀ name, (threePredictors.append (ps.map covarianceOf)).isExogenous name =
          threePredictors.isExogenous name) ∧
        (threePredictors.append (ps.map covarianceOf)).Covary ["y", "a", "b", "c"] ∧
        ∀ steps : List Step, (Step.covariances ["y", "a", "b", "c"]).run
            (Step.runAll (threePredictors.append (ps.map covarianceOf)) steps).1 =
          ((Step.runAll (threePredictors.append (ps.map covarianceOf)) steps).1, 0) := by
  have hnames : ["y", "a", "b", "c"].Nodup := by decide
  exact ⟨hnames, by decide +kernel, appends_unjoined hnames threePredictors⟩

end StructuralModel.Table
