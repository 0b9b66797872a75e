import ModelKeep.FileSystem.Frame
import ModelKeep.FileSystem.Maintain

/-!
# The footprints of the common steps

Most steps are given paths that lead into the footprint whatever the calls
answer.  What a call has made is free of links, and that is remembered where a
later step relies on it.
-/

namespace ModelKeep
namespace FileSystem

open Concurrency Program FileTree

/-! ## Steps that stay whatever is answered -/

section stays

variable {α β : Type} {tops : List String → Prop} {tree : FileTree Bytes}

theorem stays_look (op : Look) : Stays tops tree (look op).run :=
  ⟨trivial, fun _ => trivial⟩

theorem stays_change
    {op : Change}
    (permitted : Permitted tops tree (.change op)) :
    Stays tops tree (change op).run :=
  ⟨permitted, fun _ => trivial⟩

theorem stays_attemptTo
    {op : Change}
    (permitted : Permitted tops tree (.change op)) :
    Stays tops tree (attemptTo op) :=
  ⟨permitted, fun _ => trivial⟩

theorem stays_attemptAnyway
    {op : Change}
    (permitted : Permitted tops tree (.change op)) :
    Stays tops tree (attemptAnyway op).run :=
  ⟨permitted, fun _ => trivial⟩

theorem stays_check (outcome : Except ArchiveError α) :
    Stays tops tree (check outcome : Action α).run := trivial

theorem stays_always
    {program : Program interface α}
    (stays : Stays tops tree program) :
    Stays tops tree (always program : Action α).run :=
  stays.bind fun _ => trivial

theorem stays_operationId : Stays tops tree operationId :=
  ⟨trivial, fun _ => trivial⟩

theorem stays_unixTimestamp : Stays tops tree unixTimestamp :=
  ⟨trivial, fun _ => trivial⟩

theorem stays_bind
    {action : Action α}
    {rest : α → Action β}
    (first : Stays tops tree action.run)
    (second : ∀ value, Stays tops tree (rest value).run) :
    Stays tops tree (action >>= rest).run :=
  Only.exceptBind first second

/-- What comes after a check may rely on it. -/
theorem stays_check_bind
    {outcome : Except ArchiveError α}
    {rest : α → Action β}
    (second : ∀ value, outcome = .ok value →
      Stays tops tree (rest value).run) :
    Stays tops tree (check outcome >>= rest).run := by
  cases outcome with
  | error error => trivial
  | ok value => exact second value rfl

theorem stays_metadata (path : List String) (answer : Except IoErrorKind
      (FileNode Bytes) → Program interface α)
    (stays : ∀ reply, Stays tops tree (answer reply)) :
    Stays tops tree (lookAt (.metadata path) >>= answer) :=
  ⟨trivial, stays⟩

theorem stays_existsPath (path : List String) :
    Stays tops tree (existsPath path) := by
  apply stays_metadata
  intro reply
  cases reply <;> trivial

theorem stays_isDir (path : List String) :
    Stays tops tree (isDir path) := by
  apply stays_metadata
  intro reply
  split <;> trivial

theorem stays_isFile (path : List String) :
    Stays tops tree (isFile path) := by
  apply stays_metadata
  intro reply
  split <;> trivial

theorem stays_unlessDir (path : List String) (kind : IoErrorKind) :
    Stays tops tree (do
      if ← isDir path then return Except.ok () else return .error kind) := by
  apply (stays_isDir path).bind
  intro there
  cases there <;> trivial

theorem stays_createDirUnlessThere
    {path : List String}
    (makes : Makes tops tree path) :
    Stays tops tree (createDirUnlessThere path) := by
  refine ⟨makes, fun reply => ?_⟩
  cases reply with
  | ok done => trivial
  | error kind => exact stays_unlessDir path kind

theorem stays_createDirAllReversed
    {reversed : List String}
    (makes : ∀ above, above <+: reversed.reverse → Makes tops tree above) :
    Stays tops tree (createDirAllReversed reversed) := by
  induction reversed with
  | nil => exact stays_createDirUnlessThere (makes [] List.nil_prefix)
  | cons last above inductionHypothesis =>
      have here := makes _ List.prefix_rfl
      have up : ∀ further, further <+: above.reverse →
          Makes tops tree further := by
        intro further onTheWay
        apply makes
        rw [List.reverse_cons]
        exact onTheWay.trans (List.prefix_append ..)
      refine ⟨here, fun reply => ?_⟩
      cases reply with
      | ok done => trivial
      | error kind =>
          cases kind with
          | notFound =>
              apply (inductionHypothesis up).bind
              intro outcome
              cases outcome with
              | error kind => trivial
              | ok done => exact stays_createDirUnlessThere here
          | _ => exact stays_unlessDir ..

theorem stays_createDirAll
    {path : List String}
    (makes : ∀ above, above <+: path → Makes tops tree above) :
    Stays tops tree (createDirAll path).run := by
  apply Only.bind (stays_createDirAllReversed _)
  · intro outcome
    trivial
  · rw [List.reverse_reverse]
    exact makes

theorem stays_appendAll
    {path : List String}
    (opens : Opens tops tree path)
    (pieces : List Bytes) :
    Stays tops tree (appendAll path pieces).run := by
  induction pieces with
  | nil => trivial
  | cons piece rest inductionHypothesis =>
      exact stays_bind (stays_change opens) fun _ => inductionHypothesis

theorem stays_writeManifest
    {output : List String}
    (opens : Opens tops tree output)
    (repoType : RepositoryType)
    (repoId requestedRevision commit : String)
    (entries : List ManifestFile) :
    Stays tops tree (Setting.writeManifest output repoType repoId
      requestedRevision commit entries).run :=
  stays_bind (stays_always stays_unixTimestamp)
    fun _ => stays_appendAll opens _

/-- A loop stays when every turn does. -/
theorem stays_collectEntries
    {File : Type}
    {step : File → Action ManifestFile}
    (stays : ∀ file, Stays tops tree (step file).run)
    (files : List File) :
    Stays tops tree (Setting.collectEntries step files).run := by
  induction files with
  | nil => trivial
  | cons file rest inductionHypothesis =>
      exact stays_bind (stays file) fun _ =>
        stays_bind inductionHypothesis fun _ => trivial

theorem stays_syncDirectories (directories : List (List String)) :
    Stays tops tree (Setting.syncDirectories directories).run := by
  induction directories with
  | nil => trivial
  | cons path rest inductionHypothesis =>
      exact stays_bind (stays_change trivial) fun _ => inductionHypothesis

theorem stays_readToString (path : List String) :
    Stays tops tree (Setting.readToString path).run := by
  apply stays_bind (stays_look _)
  intro bytes
  split <;> trivial

end stays

/-! ## Paths below a directory -/

section below

variable {tops : List String → Prop} {tree : FileTree Bytes}
  {top : List String}

/-- The directories on the way to a path below a directory that keeps to
itself, and those above that. -/
theorem makes_of_prefix
    {path above : List String}
    (anchored : tree.Anchored top)
    (contained : tree.Contained top)
    (below : Below tops top)
    (overhead : Above tops top)
    (inside : top <+: path ∨ path <+: top)
    (onward : ".." ∉ path)
    (onTheWay : above <+: path) :
    Makes tops tree above := by
  have higher : above <+: top → Makes tops tree above := by
    intro up
    obtain ⟨further, member, start⟩ := overhead
    exact Or.inr ⟨anchored.of_prefix up, further, member, up.trans start⟩
  rcases inside with start | up
  · rcases List.prefix_or_prefix_of_prefix onTheWay start with up | deeper
    · exact higher up
    · exact Or.inl (Or.inl ⟨top, anchored, contained, below, deeper,
        fun member => onward (onTheWay.subset member)⟩)
  · exact higher (onTheWay.trans up)

/-- A directory on the way to the footprint. -/
theorem makes_of_above
    {path above : List String}
    (anchored : tree.Anchored path)
    (overhead : Above tops path)
    (onTheWay : above <+: path) :
    Makes tops tree above := by
  obtain ⟨further, member, start⟩ := overhead
  exact Or.inr ⟨anchored.of_prefix onTheWay, further, member,
    onTheWay.trans start⟩

theorem not_mem_of_anchored
    (anchored : tree.Anchored top) :
    ".." ∉ top :=
  fun member => (anchored.legal _ member).2.2.1 rfl

theorem inside_append
    {relative : List String}
    (anchored : tree.Anchored top)
    (contained : tree.Contained top)
    (below : Below tops top)
    (onward : ".." ∉ relative) :
    Inside tops tree (top ++ relative) := by
  refine ⟨top, anchored, contained, below, List.prefix_append .., ?_⟩
  rw [List.mem_append, not_or]
  exact ⟨not_mem_of_anchored anchored, onward⟩

theorem not_mem_plainComponents
    {path : String}
    (valid : validateRelativeFilePath path = .ok ()) :
    ".." ∉ plainComponents path :=
  fun member => Archive.not_mem_of_valid valid (List.mem_filter.mp member).1

/-- The directory above a path below the footprint can be made. -/
theorem makes_parentOf
    {path : String}
    {above : List String}
    (anchored : tree.Anchored top)
    (contained : tree.Contained top)
    (below : Below tops top)
    (overhead : Above tops top)
    (valid : validateRelativeFilePath path = .ok ())
    (onTheWay : above <+: Setting.parentOf top path) :
    Makes tops tree above := by
  have onward : ".." ∉ top ++ plainComponents path := by
    rw [List.mem_append, not_or]
    exact ⟨not_mem_of_anchored anchored, not_mem_plainComponents valid⟩
  exact makes_of_prefix anchored contained below overhead
    (Or.inl (List.prefix_append top (plainComponents path))) onward
    (onTheWay.trans (List.dropLast_prefix _))

end below

/-! ## What later steps rely on -/

/-- The program stays in the footprint, and ends with the postcondition. -/
abbrev Secures {α : Type} (tops : List String → Prop)
    (program : Program interface α) (post : α → Volume → Prop)
    (start : Volume) : Prop :=
  Guards exec (Kept tops start.tree) program post start

/-- A postcondition for the case of success. -/
def OnSuccess {α : Type} (post : α → Volume → Prop)
    (outcome : Except ArchiveError α) (final : Volume) : Prop :=
  ∀ value, outcome = .ok value → post value final

section secures

variable {α β : Type} {tops : List String → Prop} {start : Volume}

theorem Stays.secures
    {program : Program interface α}
    (stays : Stays tops start.tree program) :
    Secures tops program (fun _ _ => True) start :=
  stays.guards

theorem Secures.bind
    {program : Program interface α}
    {rest : α → Program interface β}
    {between : α → Volume → Prop}
    {post : β → Volume → Prop}
    (first : Secures tops program between start)
    (second : ∀ value middle, Kept tops start.tree middle →
      between value middle → Secures tops (rest value) post middle) :
    Secures tops (program >>= rest) post start := by
  apply Guards.bind
  apply first.mono
  intro value middle kept between
  exact (second value middle kept between).widen fun _ => kept.trans

/-- The rule for an action that may fail. -/
theorem Secures.andThen
    {action : Action α}
    {rest : α → Action β}
    {between : α → Volume → Prop}
    {post : β → Volume → Prop}
    (first : Secures tops action.run (OnSuccess between) start)
    (second : ∀ value middle, Kept tops start.tree middle →
      between value middle →
      Secures tops (rest value).run (OnSuccess post) middle) :
    Secures tops (action >>= rest).run (OnSuccess post) start := by
  rw [ExceptT.run_bind]
  apply first.bind
  intro outcome middle kept between
  cases outcome with
  | ok value => exact second value middle kept (between value rfl)
  | error error => exact ⟨.refl .., fun value same => by cases same⟩

theorem secures_done
    {post : α → Volume → Prop}
    {value : α}
    (holds : post value start) :
    Secures tops (.done value) post start :=
  ⟨.refl .., holds⟩

theorem Secures.anyway
    {program : Program interface α}
    {post : α → Volume → Prop}
    (secures : Secures tops program post start) :
    Secures tops program (fun _ _ => True) start :=
  secures.mono fun _ _ _ _ => trivial

theorem Stays.onSuccess
    {action : Action α}
    (stays : Stays tops start.tree action.run) :
    Secures tops action.run (OnSuccess fun _ _ => True) start :=
  stays.secures.mono fun _ _ _ _ _ _ => trivial

/-- An action whose failure is looked at first. -/
theorem Secures.always
    {action : Action α}
    {post : Except ArchiveError α → Volume → Prop}
    (secures : Secures tops action.run post start) :
    Secures tops
      (Program.always action.run : Action (Except ArchiveError α)).run
      (OnSuccess fun _ _ => True) start := by
  rw [run_always]
  apply secures.bind
  intro outcome middle _ _
  exact secures_done fun _ _ => trivial

/-- A single change that succeeds has been applied. -/
theorem secures_attemptTo
    {op : Change}
    (permitted : Permitted tops start.tree (.change op)) :
    Secures tops (attemptTo op)
      (fun reply later => reply = .ok () →
        start.apply op = some later) start := by
  refine ⟨.refl .., fun reply later executed =>
    ⟨kept_of_permitted permitted executed, ?_⟩⟩
  rintro rfl
  exact executed

theorem secures_change
    {op : Change}
    (permitted : Permitted tops start.tree (.change op)) :
    Secures tops (change op).run
      (OnSuccess fun _ later => start.apply op = some later) start := by
  apply (secures_attemptTo permitted).bind
  intro reply middle _ applied
  apply secures_done
  intro value same
  cases reply with
  | ok done => exact applied rfl
  | error kind => cases same

/-- A new file is no link, and neither is anything below it. -/
theorem linkFree_createNew
    {path : List String}
    {later : Volume}
    (anchored : start.tree.Anchored path)
    (applied : start.apply (.createNew path) = some later) :
    LinkFree later.tree path := by
  obtain ⟨place, names, applied⟩ := Option.bind_eq_some_iff.mp applied
  obtain ⟨tree, made, applied⟩ := Option.bind_eq_some_iff.mp applied
  cases applied
  rw [anchored_place_eq anchored names] at made
  have stands := lookup_placeFile (placed_of_createFile made).2 path
  rw [if_pos rfl] at stands
  have flat : tree.isDirectory path = false := by
    unfold FileTree.isDirectory
    rw [stands]
  apply linkFree_of_not_directory flat
  intro target
  rw [stands]
  simp

/-- There is nothing in a new directory. -/
theorem linkFree_createDir
    {path : List String}
    {later : Volume}
    (anchored : start.tree.Anchored path)
    (applied : start.apply (.createDir path) = some later) :
    LinkFree later.tree path := by
  obtain ⟨place, names, applied⟩ := Option.bind_eq_some_iff.mp applied
  obtain ⟨tree, made, applied⟩ := Option.bind_eq_some_iff.mp applied
  cases applied
  rw [anchored_place_eq anchored names] at made
  obtain ⟨absent, looked⟩ := lookup_createDirectory made
  have blank : LinkFree start.tree path := by
    apply linkFree_of_not_directory
    · unfold FileTree.isDirectory
      rw [absent]
    · simp [absent]
  intro other target inside
  change tree.lookup other ≠ _
  rw [looked]
  split
  · simp
  · exact blank other target inside

/-- A temporary file is made anew, whatever is then done with it. -/
theorem secures_withTemporary
    {temporary : List String}
    {rest : Action α}
    (anchored : start.tree.Anchored temporary)
    (below : Below tops temporary)
    (stays : ∀ later : Volume, FewerLinks start.tree later.tree →
      LinkFree later.tree temporary → Stays tops later.tree rest.run) :
    Secures tops (Setting.withTemporary temporary do
      change (.createNew temporary)
      rest).run (fun _ _ => True) start := by
  have names : Names tops start.tree temporary := Or.inr ⟨anchored, below⟩
  have makes : Permitted tops start.tree (.change (.createNew temporary)) :=
    names
  have body : Secures tops (do change (.createNew temporary); rest : Action
      α).run (OnSuccess fun _ _ => True) start := by
    apply (secures_change makes).andThen
    intro _ middle kept applied
    exact (stays middle kept.fewer
      (linkFree_createNew anchored applied)).onSuccess
  refine Secures.anyway (?_ : Secures tops _ (OnSuccess fun _ _ => True) start)
  apply body.always.andThen
  intro outcome middle kept _
  apply Stays.onSuccess
  cases outcome with
  | ok value => trivial
  | error error =>
      have removes : Permitted tops middle.tree
          (.change (.removeFile temporary)) := names.of_fewer kept.fewer
      exact stays_bind (stays_attemptAnyway removes) fun _ => trivial

end secures

end FileSystem
end ModelKeep
