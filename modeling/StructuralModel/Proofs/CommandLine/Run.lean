import Mathlib
import StructuralModel.CommandLine.Run
import StructuralModel.Settings.Toml

/-!
# What a run changes

A run works in surroundings about which it knows little. Here they are taken to be a *disk*
(`Disk`): a state in which some places hold files, paths lead to places, and something was printed.
A disk is *lawful* if looking something up changes nothing, a write that fails changes nothing
either, and a write that succeeds changes the file at one place. Of its reader of settings nothing
is known: whatever options it gives are used, and whatever it refuses ends the run.

On a lawful disk, everything that a run reads is what is there when it starts, and only its last
step changes something: a run that fails leaves all as it was, and one that succeeds prints the
model or changes one file.

* `Finds`: computations that change nothing, and what they find;
* `Disk.Lawful.run_frame`: how a run ends;
* `Session.lawful_disk`: a file tree is a lawful disk.
-/

namespace StructuralModel

/-! ## Disks -/

/-- A state with files, and the surroundings that work on it. -/
structure Disk (σ Place : Type) where
  /-- What can be done. -/
  calls : Surroundings (StateM σ)
  /-- The bytes of the file at a place. -/
  file? : σ → Place → Option ByteArray
  /-- The place that a path leads to, whether there is a file or not. -/
  place? : σ → String → Option Place
  /-- The text that was printed. -/
  printed : σ → String

namespace Disk

variable {σ Place : Type} (d : Disk σ Place)

/-- No file is changed and nothing is printed. -/
structure Untouched (s s' : σ) : Prop where
  file? : d.file? s' = d.file? s
  printed : d.printed s' = d.printed s

/-- The file that a path leads to is the only one that is changed, and nothing is printed. -/
structure Replaced (path : String) (bytes : ByteArray) (s s' : σ) : Prop where
  file? : ∃ place, d.place? s path = some place ∧ d.file? s' place = some bytes ∧
    ∀ other, other ≠ place → d.file? s' other = d.file? s other
  printed : d.printed s' = d.printed s

/-- A text is printed, and no file is changed. -/
structure Printed (text : String) (s s' : σ) : Prop where
  file? : d.file? s' = d.file? s
  printed : d.printed s' = d.printed s ++ text

/-- What is known of a disk. -/
structure Lawful : Prop where
  pathExists : ∀ path s, ((d.calls.pathExists path).run s).2 = s
  readFile : ∀ path s, ((d.calls.readFile path).run s).2 = s
  /-- What is read is in the file that the path leads to. -/
  readFile_ok : ∀ {path s bytes}, ((d.calls.readFile path).run s).1 = .ok bytes →
    ∃ place, d.place? s path = some place ∧ d.file? s place = some bytes
  /-- A write that fails has no effect. -/
  writeFile_error : ∀ {path bytes s s' fault},
    (d.calls.writeFile path bytes).run s = (.error fault, s') → d.Untouched s s'
  writeFile_ok : ∀ {path bytes s s'},
    (d.calls.writeFile path bytes).run s = (.ok (), s') → d.Replaced path bytes s s'
  print : ∀ text s, d.Printed text s ((d.calls.print text).run s).2

/-! ## What a run should do -/

/-- Whether there is something at a path. -/
def isThere (s : σ) (path : String) : Bool :=
  ((d.calls.pathExists path).run s).1

/-- The file that a path leads to can be read, and holds a text. -/
def Reads (s : σ) (path text : String) : Prop :=
  ((d.calls.readFile path).run s).1 = .ok text.toUTF8 ∧
    ∃ place, d.place? s path = some place ∧ d.file? s place = some text.toUTF8

/-- The options that are set at a path, or the defaults without one. -/
def Settles (s : σ) (path : Option String) (o : Options) : Prop :=
  match path with
  | none => o = {}
  | some path => d.isThere s path = true ∧ ∃ text, d.Reads s path text ∧
      d.calls.parseSettings text = .ok o

/-- The path of the settings: the one that is asked for, or the first of the others at which there
    is something, or none. -/
def settingsPath? (s : σ) (asked : Option String) (places : List String) : Option String :=
  asked.or (places.find? (d.isThere s))

/-- The model that a run compiles. -/
def Compiles (s : σ) (places : List String) (arguments : Arguments) (m : CompiledModel) : Prop :=
  ∃ o source, d.Settles s (d.settingsPath? s arguments.config places) o ∧
    d.Reads s arguments.input source ∧ compile o source = .ok m

/-- The output file, if there is one, can be written. -/
def Accepts (s : σ) (output : Option String) (text : String) : Prop :=
  ∀ path ∈ output, ((d.calls.writeFile path text.toUTF8).run s).1 = .ok ()

/-- A text is put out: in a file, or printed without one. -/
def PutOut (output : Option String) (text : String) (s s' : σ) : Prop :=
  match output with
  | none => d.Printed text s s'
  | some path => d.Replaced path text.toUTF8 s s'

end Disk

/-! ## Finding -/

section

variable {σ α β : Type} {x : ExceptT Failure (StateM σ) α} {s s' : σ}

theorem run_liftM (x : StateM σ α) (s : σ) :
    (liftM x : ExceptT Failure (StateM σ) α).run.run s = (.ok (x.run s).1, (x.run s).2) := rfl

theorem run_bind_of_ok {a : α} (h : x.run.run s = (.ok a, s'))
    (f : α → ExceptT Failure (StateM σ) β) : (x >>= f).run.run s = (f a).run.run s' := by
  rw [ExceptT.run_bind, StateT.run_bind, h]
  rfl

theorem run_bind_of_error {failure : Failure} (h : x.run.run s = (.error failure, s'))
    (f : α → ExceptT Failure (StateM σ) β) : (x >>= f).run.run s = (.error failure, s') := by
  rw [ExceptT.run_bind, StateT.run_bind, h]
  rfl

end

/-- A computation that changes nothing, and succeeds with what has the property `P`, if there is
    something. -/
def Finds {σ α : Type} (x : ExceptT Failure (StateM σ) α) (s : σ) (P : α → Prop) : Prop :=
  ∃ r, x.run.run s = (r, s) ∧ ∀ a, r = .ok a ↔ P a

namespace Finds

variable {σ α β : Type} {x : ExceptT Failure (StateM σ) α} {f : α → ExceptT Failure (StateM σ) β}
  {s : σ} {P P' : α → Prop} {Q : α → β → Prop}

theorem congr (h : Finds x s P) (hP : ∀ a, P a ↔ P' a) : Finds x s P' := by
  obtain ⟨r, hr, hok⟩ := h
  exact ⟨r, hr, fun a => (hok a).trans (hP a)⟩

theorem pure (a : α) : Finds (pure a : ExceptT Failure (StateM σ) α) s (a = ·) :=
  ⟨.ok a, rfl, fun b => by simp⟩

theorem throw (failure : Failure) :
    Finds (throw failure : ExceptT Failure (StateM σ) α) s fun _ => False :=
  ⟨.error failure, rfl, fun a => by simp⟩

/-- A computation that hands on a result. -/
theorem ofExcept {ε : Type} {r : Except ε α} (hok : ∀ a, r = .ok a → x = Pure.pure a)
    (herror : ∀ e, r = .error e → ∃ failure, x = MonadExcept.throw failure) :
    Finds x s (r = .ok ·) := by
  cases r with
  | error e =>
    obtain ⟨failure, rfl⟩ := herror e rfl
    exact (throw failure).congr fun a => iff_of_false id fun h => by cases h
  | ok a =>
    rw [hok a rfl]
    exact (pure a).congr fun b => by rw [Except.ok.injEq]

/-- A call that leaves the state as it is. -/
theorem lift {x : StateM σ α} (h : (x.run s).2 = s) :
    Finds (liftM x : ExceptT Failure (StateM σ) α) s ((x.run s).1 = ·) :=
  ⟨.ok (x.run s).1, by rw [run_liftM, h], fun a => by simp⟩

/-- What is found in two steps, of which the second one depends on the first. -/
theorem bind (hx : Finds x s P) (hf : ∀ a, P a → Finds (f a) s (Q a)) :
    Finds (x >>= f) s fun b => ∃ a, P a ∧ Q a b := by
  obtain ⟨r, hr, hP⟩ := hx
  cases r with
  | error e =>
    refine ⟨.error e, ?_, fun b => iff_of_false (fun h => by cases h) ?_⟩
    · exact run_bind_of_error hr f
    · rintro ⟨a, ha, -⟩
      cases (hP a).2 ha
  | ok a =>
    obtain ⟨r, hr', hQ⟩ := hf a ((hP a).1 rfl)
    refine ⟨r, ?_, fun b => (hQ b).trans ⟨fun hb => ⟨a, (hP a).1 rfl, hb⟩, ?_⟩⟩
    · rw [run_bind_of_ok hr f, hr']
    · rintro ⟨a', ha', hb⟩
      cases (hP a').2 ha'
      exact hb

end Finds

/-! ## Texts as bytes -/

/-- Bytes are the text of at most one string. -/
theorem fromUTF8?_eq_some_iff {bytes : ByteArray} {text : String} :
    String.fromUTF8? bytes = some text ↔ bytes = text.toUTF8 := by
  constructor
  · intro h
    rw [String.fromUTF8?] at h
    split at h
    case isTrue =>
      cases h
      rfl
    case isFalse => cases h
  · rintro rfl
    have hvalid : text.toUTF8.IsValidUTF8 := text.isValidUTF8
    rw [String.fromUTF8?, dif_pos hvalid]
    rfl

/-! ## The steps of a run -/

namespace Disk.Lawful

variable {σ Place : Type} {d : Disk σ Place} (h : d.Lawful) {s s' : σ}
include h

/-- What a run reads is the text of a file. -/
theorem readText (s : σ) (path : String) : Finds (d.calls.readText path) s (d.Reads s path) := by
  refine ((Finds.lift (h.readFile path s)).bind (Q := fun r text => r = .ok text.toUTF8)
    fun r _ => ?_).congr fun text => ?_
  · cases r with
    | error fault => exact (Finds.throw _).congr fun text => iff_of_false id (fun h => by cases h)
    | ok bytes =>
      simp only
      split
      case h_1 text htext =>
        refine (Finds.pure text).congr fun other => ?_
        rw [Except.ok.injEq, ← fromUTF8?_eq_some_iff, htext, Option.some.injEq]
      case h_2 hnone =>
        refine (Finds.throw _).congr fun text => iff_of_false id fun h => ?_
        rw [Except.ok.injEq, ← fromUTF8?_eq_some_iff, hnone] at h
        cases h
  · refine ⟨fun ⟨r, hr, htext⟩ => ?_, fun htext => ⟨_, htext.1, rfl⟩⟩
    exact ⟨hr.trans htext, h.readFile_ok (hr.trans htext)⟩

/-- Settings are read where there is something. -/
theorem readSettings (s : σ) (path : String) :
    Finds (d.calls.readSettings path) s (d.Settles s (some path)) := by
  refine ((Finds.lift (h.pathExists path s)).bind (Q := fun isThere o => isThere = true ∧
    ∃ text, d.Reads s path text ∧ d.calls.parseSettings text = .ok o) fun isThere _ => ?_).congr
      fun o => ?_
  · cases isThere with
    | false => exact (Finds.throw _).congr fun o => by simp
    | true =>
      refine ((h.readText s path).bind (Q := fun text o => d.calls.parseSettings text = .ok o)
        fun text _ => ?_).congr fun o => (and_iff_right rfl).symm
      exact .ofExcept (fun o ho => by rw [ho]) fun reason hreason => ⟨_, by rw [hreason]⟩
  · exact ⟨fun ⟨_, hr, hset⟩ => by cases hr; exact hset, fun hset => ⟨_, rfl, hset⟩⟩

/-- Settings are those at the path of the settings. -/
theorem findOptions (s : σ) (asked : Option String) (places : List String) :
    Finds (d.calls.findOptions asked places) s
      (d.Settles s (d.settingsPath? s asked places)) := by
  cases asked with
  | some path => exact h.readSettings s path
  | none =>
    -- By induction on the places: one is passed over only if there is nothing.
    induction places with
    | nil => exact (Finds.pure ({} : Options)).congr fun o => eq_comm
    | cons path places ih =>
      rw [settingsPath?, Option.none_or, List.find?_cons]
      refine ((Finds.lift (h.pathExists path s)).bind (Q := fun isThere => d.Settles s
        (if isThere then some path else places.find? (d.isThere s))) fun isThere _ => ?_).congr
          fun o => ?_
      · cases isThere with
        | false => exact ih
        | true => exact h.readSettings s path
      · rw [exists_eq_left']
        change d.Settles s (if d.isThere s path then _ else _) o ↔ _
        cases d.isThere s path <;> rfl

/-- What a run compiles is the text of its input. -/
theorem compileFile (s : σ) (o : Options) (path : String) :
    Finds (d.calls.compileFile o path) s
      fun m => ∃ source, d.Reads s path source ∧ compile o source = .ok m := by
  refine (h.readText s path).bind fun source _ => ?_
  exact .ofExcept (fun m hm => by rw [hm]) fun findings hfindings => ⟨_, by rw [hfindings]⟩

/-- Only putting out changes something. -/
theorem putOut (s : σ) (output : Option String) (text : String) :
    match (d.calls.putOut output text).run.run s with
    | (.error _, s') => d.Untouched s s' ∧ ¬d.Accepts s output text
    | (.ok (), s') => d.PutOut output text s s' ∧ d.Accepts s output text := by
  cases output with
  | none => exact ⟨h.print text s, fun path hpath => by cases hpath⟩
  | some path =>
    have haccepts : d.Accepts s (some path) text ↔
        ((d.calls.writeFile path text.toUTF8).run s).1 = .ok () := by
      simp [Accepts]
    cases hwrite : (d.calls.writeFile path text.toUTF8).run s with
    | mk r s' =>
      have hcall : (liftM (d.calls.writeFile path text.toUTF8) :
          ExceptT Failure (StateM σ) (Except FileFault Unit)).run.run s = (.ok r, s') := by
        rw [run_liftM, hwrite]
      rw [hwrite] at haccepts
      rw [Surroundings.putOut, run_bind_of_ok hcall]
      cases r with
      | error fault => exact ⟨h.writeFile_error hwrite, fun h => by cases haccepts.1 h⟩
      | ok => exact ⟨h.writeFile_ok hwrite, haccepts.2 rfl⟩

/-- How a run ends. If it fails, for whatever reason, no file is changed and nothing is printed, and
    it could not have succeeded; if it succeeds, the model is that of the input and the settings,
    and is put out. -/
theorem run_frame (system : Option String) (arguments : Arguments) (s : σ) :
    match (d.calls.run (Settings.localPath :: system.toList) arguments).run.run s with
    | (.error _, s') => d.Untouched s s' ∧
        ¬∃ m, d.Compiles s (Settings.localPath :: system.toList) arguments m ∧
          d.Accepts s arguments.output m.render
    | (.ok m, s') => d.Compiles s (Settings.localPath :: system.toList) arguments m ∧
        d.PutOut arguments.output m.render s s' := by
  generalize Settings.localPath :: system.toList = places
  -- Up to the last step, a run only looks for the model.
  have hmodel : Finds (do
      let o ← d.calls.findOptions arguments.config places
      d.calls.compileFile o arguments.input) s (d.Compiles s places arguments) := by
    refine ((h.findOptions s arguments.config places).bind
      fun o _ => h.compileFile s o arguments.input).congr fun m => ?_
    simp [Compiles]
  have hrun : d.calls.run places arguments = (do
      let o ← d.calls.findOptions arguments.config places
      d.calls.compileFile o arguments.input) >>= fun m => do
        d.calls.putOut arguments.output m.render
        return m := by
    rw [bind_assoc]
    rfl
  obtain ⟨r, hr, hok⟩ := hmodel
  rw [hrun]
  cases r with
  | error failure =>
    rw [run_bind_of_error hr]
    refine ⟨⟨rfl, rfl⟩, fun ⟨m, hm, _⟩ => ?_⟩
    cases (hok m).2 hm
  | ok m =>
    rw [run_bind_of_ok hr]
    have hput := h.putOut s arguments.output m.render
    cases hr' : (d.calls.putOut arguments.output m.render).run.run s with
    | mk r' s' =>
      rw [hr'] at hput
      cases r' with
      | error failure =>
        rw [run_bind_of_error hr']
        refine ⟨hput.1, fun ⟨m', hm', haccepts⟩ => hput.2 ?_⟩
        cases (hok m').2 hm'
        exact haccepts
      | ok =>
        rw [run_bind_of_ok hr']
        exact ⟨(hok m).1 rfl, hput.1⟩

end Disk.Lawful

/-! ## File trees as disks -/

namespace FileTree

variable {path : String} {place : List String} {bytes : ByteArray} {t t' : FileTree}

/-- The place of the file that a path leads to, whether there is one or not. -/
def target? (path : String) (t : FileTree) : Option (List String) :=
  match t.resolve path with
  | .ok (some (dir, name)) => (t.place dir name).toOption
  | _ => none

/-- What is read is in the file that the path leads to. -/
theorem file?_of_read (h : t.read path = .ok bytes) :
    ∃ place, t.target? path = some place ∧ t.file? place = some bytes := by
  rw [read] at h
  rw [target?]
  cases hresolve : t.resolve path with
  | error => rw [hresolve] at h; cases h
  | ok target =>
    rw [hresolve] at h
    match target with
    | none => cases h
    | some (dir, name) =>
      cases hplace : t.place dir name with
      | error => simp [hplace, bind, Except.bind] at h
      | ok place =>
        simp only [hplace, bind, Except.bind] at h
        split at h
        case h_1 => cases h
        case h_2 old hold =>
          split at h
          case isTrue => cases h
          case isFalse =>
            cases h
            exact ⟨place, by simp [Except.toOption, hplace], hold⟩

/-- What is written is put where the path leads to. -/
theorem eq_put_of_write (h : t.write path bytes = .ok t') :
    ∃ place, t.target? path = some place ∧ t' = t.put place bytes := by
  rw [write] at h
  rw [target?]
  cases hresolve : t.resolve path with
  | error => rw [hresolve] at h; cases h
  | ok target =>
    rw [hresolve] at h
    match target with
    | none => cases h
    | some (dir, name) =>
      simp only [bind, Except.bind] at h
      split at h
      case isTrue => cases h
      case isFalse =>
        cases hplace : t.place dir name with
        | error => rw [hplace] at h; cases h
        | ok place =>
          rw [hplace] at h
          cases h
          exact ⟨place, by simp [Except.toOption, hplace], rfl⟩

theorem lookup_map_replace (place other : List String) (bytes : ByteArray)
    (files : List (List String × ByteArray)) :
    (files.map fun (names, old) => (names, if names == place then bytes else old)).lookup other =
      (files.lookup other).map fun old => if other = place then bytes else old := by
  induction files with
  | nil => rfl
  | cons file files ih =>
    obtain ⟨names, old⟩ := file
    rw [List.map_cons, List.lookup_cons, List.lookup_cons, ih]
    by_cases h : other = names
    · subst h
      simp
    · rw [beq_false_of_ne h]

/-- Only the file that is put somewhere is changed. -/
theorem file?_put (t : FileTree) (place other : List String) (bytes : ByteArray) :
    (t.put place bytes).file? other = if other = place then some bytes else t.file? other := by
  have hsome : t.files.any (·.1 == place) = (t.files.lookup place).isSome := by
    rw [Bool.eq_iff_iff, List.any_eq_true, List.lookup_isSome_iff]
    simp only [beq_iff_eq, eq_comm (b := place)]
  rw [put, file?, file?, hsome]
  split
  case isTrue h =>
    rw [lookup_map_replace]
    split
    case isTrue heq =>
      obtain ⟨old, hold⟩ := Option.isSome_iff_exists.1 h
      rw [heq, hold, Option.map_some]
    case isFalse => rw [Option.map_id']
  case isFalse h =>
    rw [List.lookup_append, List.lookup_cons, List.lookup_nil]
    by_cases heq : other = place
    · rw [heq, Option.not_isSome_iff_eq_none.1 h, Option.none_or, BEq.rfl, if_pos rfl]
    · rw [beq_false_of_ne heq, Option.or_none, if_neg heq]

end FileTree

namespace Session

/-- A file tree as a disk, with a reader of settings. -/
def disk (reader : Settings.Reader) : Disk Session (List String) where
  calls := surroundings reader
  file? s place := s.tree.file? place
  place? s path := s.tree.target? path
  printed := printed

/-- A file tree is a lawful disk, whatever reads the settings. -/
theorem lawful_disk (reader : Settings.Reader) : (disk reader).Lawful where
  pathExists _ _ := rfl
  readFile _ _ := rfl
  readFile_ok := FileTree.file?_of_read
  writeFile_error {path bytes s s' fault} h := by
    have h : write path bytes s = (.error fault, s') := h
    rw [write] at h
    split at h <;> cases h
    exact ⟨rfl, rfl⟩
  writeFile_ok {path bytes s s'} h := by
    have h : write path bytes s = (.ok (), s') := h
    rw [write] at h
    split at h
    case h_2 => cases h
    case h_1 tree htree =>
      cases h
      obtain ⟨place, hplace, rfl⟩ := FileTree.eq_put_of_write htree
      refine ⟨⟨place, hplace, ?_, fun other hother => ?_⟩, rfl⟩
      · exact (FileTree.file?_put ..).trans (if_pos rfl)
      · exact (FileTree.file?_put ..).trans (if_neg hother)
  print _ _ := ⟨rfl, rfl⟩

/-- A session with a model `m` and settings `c`. -/
def project : Session where
  tree := ⟨[(["c"], "[compile]\nadd_intercepts = false\n".toUTF8), (["m"], "f =~ x".toUTF8)]⟩

/-- The arguments that name the model, and the settings as the output too. -/
def overwriting : Arguments where
  input := "m"
  output := some "c"
  config := some "c"

/-- A run may replace the very settings that it has read. -/
theorem exists_run_overwriting :
    ∃ m s', project.run Settings.ofToml [Settings.localPath] overwriting = (.ok m, s') ∧
      (disk Settings.ofToml).Compiles project [Settings.localPath] overwriting m ∧
      (disk Settings.ofToml).Replaced "c" m.render.toUTF8 project s' := by
  have hsettings : (disk Settings.ofToml).Reads project "c" "[compile]\nadd_intercepts = false\n" :=
    ⟨by cbv, ["c"], by cbv, by cbv⟩
  have hinput : (disk Settings.ofToml).Reads project "m" "f =~ x" :=
    ⟨by cbv, ["m"], by cbv, by cbv⟩
  have hsettles : (disk Settings.ofToml).Settles project (some "c") { addIntercepts := false } :=
    ⟨by cbv, _, hsettings, by cbv⟩
  obtain ⟨m, hm⟩ : ∃ m, compile { addIntercepts := false } "f =~ x" = .ok m := by
    have hok : (compile { addIntercepts := false } "f =~ x").isOk = true := by decide +kernel
    cases hm : compile { addIntercepts := false } "f =~ x" with
    | error => rw [hm] at hok; cases hok
    | ok m => exact ⟨m, rfl⟩
  have haccepts : (disk Settings.ofToml).Accepts project (some "c") m.render := by
    rintro _ ⟨⟩
    cbv
  have hframe := (lawful_disk Settings.ofToml).run_frame none overwriting project
  cases hrun : ((disk Settings.ofToml).calls.run (Settings.localPath :: none.toList)
      overwriting).run.run project with
  | mk r s' =>
    rw [hrun] at hframe
    cases r with
    | error => exact absurd ⟨m, ⟨_, _, hsettles, hinput, hm⟩, haccepts⟩ hframe.2
    | ok m' => exact ⟨m', s', hrun, hframe⟩

end Session

end StructuralModel
