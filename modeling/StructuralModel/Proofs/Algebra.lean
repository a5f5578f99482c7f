import StructuralModel.Algebra
import StructuralModel.Proofs.Appearance

/-!
# Parameters and definitions, call by call

An algebra starts with nothing declared or defined and is filled by *calls* of `declare` and
`define`, in any order (`Algebra.after`). The declared names and the definitions can be told from
the calls (`Records`). Whether a parameter is free depends on the order of the calls: a definition
fixes a parameter that is declared already, but a declaration does not look for definitions, so only
the definitions behind the first declaration of a name count (`Follows.free`).

The flags *tell what is defined* if a declared parameter is free just if there is no definition of
it (`TellsDefined`). They do iff each name that is defined in front of its first declaration is
defined behind it, too.

* `Follows.run`, `follows_after`: what a call does, and what any number of calls do;
* `records_after`: the names, the definitions and the flags of an algebra;
* `not_tellsDefined`: a parameter that is defined first and declared later stays free.
-/

namespace StructuralModel.Algebra

/-- A call that adds to an algebra. -/
inductive Call where
  /-- A declaration of a name. -/
  | declare (name : String)
  /-- A definition. -/
  | define (d : Definition)
  deriving DecidableEq, Repr

namespace Call

/-- What a call makes of an algebra. -/
def run (a : Algebra) : Call → Algebra
  | declare name => a.declare name
  | define d => a.define d

/-- The name that a call declares. -/
def declared? : Call → Option String
  | declare name => some name
  | define _ => none

/-- The definition that a call adds. -/
def definition? : Call → Option Definition
  | declare _ => none
  | define d => some d

end Call

/-- The algebra after some calls, if nothing was declared or defined before. -/
def after (calls : List Call) : Algebra :=
  calls.foldl Call.run {}

/-! ## Calls of a name -/

/-- One of the calls defines a name. -/
def Defines (calls : List Call) (name : String) : Prop :=
  ∃ d, .define d ∈ calls ∧ d.name = name

/-- The calls in front of the first declaration of a name. -/
def beforeDeclared (name : String) (calls : List Call) : List Call :=
  calls.takeWhile (· != .declare name)

/-- The calls from the first declaration of a name on. -/
def sinceDeclared (name : String) (calls : List Call) : List Call :=
  calls.dropWhile (· != .declare name)

variable {calls more done : List Call} {a : Algebra} {name : String} {d : Definition}

theorem defines_append : Defines (calls ++ more) name ↔ Defines calls name ∨ Defines more name := by
  simp only [Defines, List.mem_append, or_and_right, exists_or]

theorem defines_define : Defines [.define d] name ↔ d.name = name := by
  simp [Defines]

theorem not_defines_declare {other : String} : ¬Defines [.declare other] name := by
  simp [Defines]

/-- A name is defined in front of its first declaration, or behind it. -/
theorem defines_iff (calls : List Call) (name : String) : Defines calls name ↔
    Defines (beforeDeclared name calls) name ∨ Defines (sinceDeclared name calls) name := by
  rw [← defines_append, beforeDeclared, sinceDeclared, List.takeWhile_append_dropWhile]

/-- The first declaration of a name cuts the calls. -/
theorem sinceDeclared_append_cons (h : .declare name ∉ calls) (more : List Call) :
    sinceDeclared name (calls ++ .declare name :: more) = .declare name :: more := by
  have hcalls : ∀ c ∈ calls, (c != .declare name) = true := fun c hc =>
    bne_iff_ne.2 fun heq => h (heq ▸ hc)
  rw [sinceDeclared, List.dropWhile_append_of_pos hcalls, List.dropWhile_cons_of_neg (by simp)]

/-- Once a name is declared, all further calls come behind its first declaration. -/
theorem sinceDeclared_append (h : .declare name ∈ calls) (more : List Call) :
    sinceDeclared name (calls ++ more) = sinceDeclared name calls ++ more := by
  obtain ⟨front, back, rfl, hfront⟩ := List.eq_append_cons_of_mem h
  rw [List.append_assoc, List.cons_append, sinceDeclared_append_cons hfront,
    sinceDeclared_append_cons hfront, List.cons_append]

/-! ## What the calls leave -/

/-- What an algebra is after some calls. -/
structure Follows (calls : List Call) (a : Algebra) : Prop where
  /-- The declared names, each at its first declaration. -/
  names : a.parameters.map Parameter.name = (calls.filterMap Call.declared?).eraseDups
  /-- All definitions. -/
  definitions : a.definitions = calls.filterMap Call.definition?
  /-- A parameter is free unless it is defined behind its first declaration. -/
  free : ∀ p ∈ a.parameters,
    p.free = true ↔ ¬Defines (sinceDeclared p.name calls) p.name

theorem follows_empty : Follows [] {} :=
  ⟨rfl, rfl, fun _ h => by cases h⟩

namespace Follows

/-- The parameters are those that are declared. -/
theorem exists_iff (h : Follows calls a) :
    (∃ p ∈ a.parameters, p.name = name) ↔ .declare name ∈ calls := by
  rw [← List.mem_map, h.names, List.mem_eraseDups, List.mem_filterMap]
  constructor
  · rintro ⟨c, hc, heq⟩
    cases c with
    | declare other => exact Option.some.inj heq ▸ hc
    | define => cases heq
  · exact fun hc => ⟨_, hc, rfl⟩

/-- The definitions are those that are added. -/
theorem exists_definition_iff (h : Follows calls a) :
    (∃ d ∈ a.definitions, d.name = name) ↔ Defines calls name := by
  rw [h.definitions, Defines]
  refine exists_congr fun d => and_congr_left fun _ => ?_
  rw [List.mem_filterMap]
  constructor
  · rintro ⟨c, hc, heq⟩
    cases c with
    | declare => cases heq
    | define other => exact Option.some.inj heq ▸ hc
  · exact fun hc => ⟨_, hc, rfl⟩

/-- A call that does not define a parameter does not change what its flag tells. -/
theorem free_concat (h : Follows calls a) {p : Parameter} (hp : p ∈ a.parameters) {c : Call}
    (hc : ¬Defines [c] p.name) :
    p.free = true ↔ ¬Defines (sinceDeclared p.name (calls ++ [c])) p.name := by
  rw [sinceDeclared_append (h.exists_iff.1 ⟨p, hp, rfl⟩), defines_append, or_iff_left hc]
  exact h.free p hp

/-- A declaration adds a free parameter, or nothing. -/
theorem declare (h : Follows calls a) (name : String) :
    Follows (calls ++ [.declare name]) (a.declare name) := by
  have hdefinitions : a.definitions = (calls ++ [Call.declare name]).filterMap Call.definition? := by
    rw [h.definitions, List.filterMap_append]
    exact (List.append_nil _).symm
  have hany : a.parameters.any (·.name == name) = true ↔ Call.declare name ∈ calls := by
    rw [List.any_eq_true, ← h.exists_iff]
    simp only [beq_iff_eq]
  have hdeclared : (calls ++ [Call.declare name]).filterMap Call.declared? =
      calls.filterMap Call.declared? ++ [name] := List.filterMap_append
  rw [Algebra.declare]
  split
  case isTrue hold =>
    have hmem : name ∈ calls.filterMap Call.declared? :=
      List.mem_filterMap.2 ⟨_, hany.1 hold, rfl⟩
    refine ⟨?_, hdefinitions, fun p hp => h.free_concat hp not_defines_declare⟩
    rw [hdeclared, eraseDups_concat_of_mem hmem]
    exact h.names
  case isFalse hnew =>
    have hcalls : Call.declare name ∉ calls := fun hc => hnew (hany.2 hc)
    have hmem : name ∉ calls.filterMap Call.declared? := fun hmem => by
      rw [← List.mem_eraseDups, ← h.names, List.mem_map, h.exists_iff] at hmem
      exact hcalls hmem
    refine ⟨?_, hdefinitions, fun p hp => ?_⟩
    · rw [hdeclared, eraseDups_concat_of_not_mem hmem, ← h.names, List.map_append]
      rfl
    · rcases List.mem_append.1 hp with hp | hp
      · exact h.free_concat hp not_defines_declare
      · -- Nothing has come yet behind the declaration.
        obtain rfl := List.mem_singleton.1 hp
        rw [sinceDeclared_append_cons hcalls]
        exact iff_of_true rfl not_defines_declare

/-- A definition fixes the parameter with its name. -/
theorem define (h : Follows calls a) (d : Definition) :
    Follows (calls ++ [.define d]) (a.define d) := by
  refine ⟨?_, ?_, fun p hp => ?_⟩
  · rw [List.filterMap_append, show [Call.define d].filterMap Call.declared? = [] from rfl,
      List.append_nil, ← h.names, Algebra.define, List.map_map]
    refine List.map_congr_left fun p _ => ?_
    rw [Function.comp_apply]
    split <;> rfl
  · rw [List.filterMap_append, ← h.definitions]
    rfl
  · obtain ⟨q, hq, rfl⟩ := List.mem_map.1 hp
    split
    case isTrue hname =>
      refine iff_of_false Bool.false_ne_true (not_not_intro ?_)
      rw [sinceDeclared_append (h.exists_iff.1 ⟨q, hq, rfl⟩), defines_append]
      exact .inr (defines_define.2 (beq_iff_eq.1 hname).symm)
    case isFalse hname =>
      refine h.free_concat hq fun hdefines => hname ?_
      exact beq_iff_eq.2 (defines_define.1 hdefines).symm

theorem run (h : Follows calls a) (c : Call) : Follows (calls ++ [c]) (c.run a) := by
  cases c with
  | declare name => exact h.declare name
  | define d => exact h.define d

theorem foldl_run (h : Follows calls a) (more : List Call) :
    Follows (calls ++ more) (more.foldl Call.run a) := by
  induction more generalizing calls a with
  | nil => rwa [List.append_nil]
  | cons c more ih =>
    rw [List.append_cons]
    exact ih (h.run c)

end Follows

theorem follows_after (calls : List Call) : Follows calls (after calls) :=
  follows_empty.foldl_run calls

/-! ## What the flags tell -/

/-- The names and definitions that an algebra records of some calls. -/
structure Records (calls : List Call) (a : Algebra) : Prop where
  /-- No name is declared twice. -/
  nodup : (a.parameters.map Parameter.name).Nodup
  /-- The declared names come in the order of their first declarations. -/
  names : a.parameters.map Parameter.name = (calls.filterMap Call.declared?).eraseDups
  /-- The definitions come in the order of the calls. -/
  definitions : a.definitions = calls.filterMap Call.definition?
  /-- The flag of a name is that of its parameter. -/
  isFree? : ∀ p ∈ a.parameters, a.isFree? p.name = some p.free

/-- A declared parameter is free iff there is no definition of it. -/
def TellsDefined (a : Algebra) : Prop :=
  ∀ p ∈ a.parameters, p.free = true ↔ ∀ d ∈ a.definitions, d.name ≠ p.name

/-- If names differ, the one that is looked up is found. -/
theorem isFree?_of_mem (h : (a.parameters.map Parameter.name).Nodup) {p : Parameter}
    (hp : p ∈ a.parameters) : a.isFree? p.name = some p.free := by
  obtain ⟨front, back, hsplit⟩ := List.append_of_mem hp
  rw [hsplit, List.map_append, List.map_cons, List.nodup_append] at h
  have hfront : front.find? (·.name == p.name) = none :=
    List.find?_eq_none.2 fun q hq heq =>
      h.2.2 _ (List.mem_map_of_mem hq) _ List.mem_cons_self (beq_iff_eq.1 heq)
  rw [isFree?, hsplit, List.find?_append, hfront, Option.none_or]
  simp

theorem Follows.records (h : Follows calls a) : Records calls a := by
  have hnodup : (a.parameters.map Parameter.name).Nodup := h.names ▸ nodup_eraseDups _
  exact ⟨hnodup, h.names, h.definitions, fun p hp => isFree?_of_mem hnodup hp⟩

/-- The flag of a parameter tells whether it is defined unless it is defined in front of its first
    declaration only. -/
theorem Follows.tells_iff (h : Follows calls a) {p : Parameter} (hp : p ∈ a.parameters) :
    (p.free = true ↔ ∀ d ∈ a.definitions, d.name ≠ p.name) ↔
      (Defines (beforeDeclared p.name calls) p.name →
        Defines (sinceDeclared p.name calls) p.name) := by
  have hundefined : (∀ d ∈ a.definitions, d.name ≠ p.name) ↔ ¬Defines calls p.name := by
    rw [← h.exists_definition_iff, not_exists]
    simp only [not_and, ne_eq]
  rw [h.free p hp, hundefined, not_iff_not, defines_iff calls]
  exact ⟨fun hiff hbefore => hiff.2 (.inl hbefore),
    fun himp => ⟨.inr, fun hdefines => hdefines.elim himp id⟩⟩

/-- The calls give an algebra its names and its definitions. A parameter is free iff it is not
    defined behind its first declaration, and the flags tell what is defined iff each name that is
    defined in front of its first declaration is defined behind it, too. -/
theorem records_after (calls : List Call) : Records calls (after calls) ∧
    (∀ p ∈ (after calls).parameters,
      p.free = true ↔ ¬Defines (sinceDeclared p.name calls) p.name) ∧
    ((after calls).TellsDefined ↔ ∀ name, .declare name ∈ calls →
      Defines (beforeDeclared name calls) name → Defines (sinceDeclared name calls) name) := by
  have h := follows_after calls
  refine ⟨h.records, h.free, fun htells name hname => ?_, fun hdefines p hp => ?_⟩
  · obtain ⟨p, hp, rfl⟩ := h.exists_iff.2 hname
    exact (h.tells_iff hp).1 (htells p hp)
  · exact (h.tells_iff hp).2 (hdefines p.name (h.exists_iff.1 ⟨p, hp, rfl⟩))

/-- A parameter that is defined first and declared later stays free. -/
theorem not_tellsDefined : ¬∀ calls : List Call,
    Records calls (after calls) ∧ (after calls).TellsDefined := by
  intro h
  have htells := (h [.define ⟨"b", "2*a"⟩, .declare "b"]).2 ⟨"b", true⟩ (by decide)
  exact htells.1 rfl ⟨"b", "2*a"⟩ (by decide) rfl

end StructuralModel.Algebra
