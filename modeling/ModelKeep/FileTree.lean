import Mathlib.Data.Finset.Image
import Mathlib.Data.List.Sort
import Mathlib.Data.String.Basic

/-!
# Finite directory trees

A directory tree is a finite partial map from paths, as component lists, to
files, directories and symbolic links.  The structure carries the fact that
everything lies in a directory, so an operation that would break it cannot be
written.  Reading a path follows the links on its way as the operating system
does.
-/

/-- What a name in a directory can stand for.  The target of a link is its
position in the tree, or nothing when it points out of the tree. -/
inductive FileNode (α : Type)
  | file (content : α)
  | directory
  | link (target : Option (List String))
  deriving DecidableEq

/-- A name that can stand in a directory. -/
def LegalName (name : String) : Prop :=
  name ≠ "" ∧ name ≠ "." ∧ name ≠ ".." ∧ '/' ∉ name.toList

instance (name : String) : Decidable (LegalName name) :=
  inferInstanceAs (Decidable (_ ∧ _ ∧ _ ∧ _))

/-- A directory tree; the empty path is the tree itself. -/
structure FileTree (α : Type) where
  /-- What stands at a path other than the root. -/
  node : List String → Option (FileNode α)
  /-- The paths in use. -/
  paths : Finset (List String)
  mem_paths : ∀ path, path ∈ paths ↔ (node path).isSome
  rootless : node [] = none
  legal : ∀ path, (node path).isSome → ∀ name ∈ path, LegalName name
  closed : ∀ path, (node path).isSome →
    path.dropLast = [] ∨ node path.dropLast = some .directory

namespace FileTree

variable {α : Type}

/-- What stands at a path. -/
def lookup (tree : FileTree α) (path : List String) :
    Option (FileNode α) :=
  if path = [] then some .directory else tree.node path

/-- Whether a path names a directory. -/
def isDirectory (tree : FileTree α) (path : List String) : Bool :=
  match tree.lookup path with
  | some .directory => true
  | _ => false

/-- Whether a path names a regular file. -/
def isFile (tree : FileTree α) (path : List String) : Bool :=
  match tree.lookup path with
  | some (.file _) => true
  | _ => false

@[simp] theorem lookup_nil (tree : FileTree α) :
    tree.lookup [] = some .directory := rfl

theorem lookup_of_ne_nil
    (tree : FileTree α)
    {path : List String}
    (nonempty : path ≠ []) :
    tree.lookup path = tree.node path := if_neg nonempty

theorem mem_paths_iff (tree : FileTree α) (path : List String) :
    path ∈ tree.paths ↔ path ≠ [] ∧ (tree.lookup path).isSome := by
  rw [tree.mem_paths]
  by_cases empty : path = []
  · subst empty
    simp [tree.rootless]
  · simp [lookup_of_ne_nil tree empty, empty]

theorem legal_of_lookup
    (tree : FileTree α)
    {path : List String}
    (present : (tree.lookup path).isSome) :
    ∀ name ∈ path, LegalName name := by
  by_cases empty : path = []
  · subst empty
    simp
  · rw [lookup_of_ne_nil tree empty] at present
    exact tree.legal path present

theorem isDirectory_iff (tree : FileTree α) (path : List String) :
    tree.isDirectory path = true ↔ tree.lookup path = some .directory := by
  unfold isDirectory
  split <;> simp_all

theorem isFile_iff (tree : FileTree α) (path : List String) :
    tree.isFile path = true ↔
      ∃ content, tree.lookup path = some (.file content) := by
  unfold isFile
  split <;> simp_all

theorem isDirectory_dropLast
    (tree : FileTree α)
    {path : List String}
    (present : (tree.lookup path).isSome) :
    tree.isDirectory path.dropLast = true := by
  rw [isDirectory_iff]
  by_cases empty : path = []
  · subst empty
    rfl
  · rw [lookup_of_ne_nil tree empty] at present
    rcases tree.closed path present with root | directory
    · rw [root, lookup_nil]
    · by_cases root : path.dropLast = []
      · rw [root, lookup_nil]
      · rw [lookup_of_ne_nil tree root, directory]

/-- Everything above an existing path is a directory. -/
theorem isDirectory_of_append
    (tree : FileTree α)
    (above below : List String)
    (nonempty : below ≠ [])
    (present : (tree.lookup (above ++ below)).isSome) :
    tree.isDirectory above = true := by
  induction below using List.reverseRecOn with
  | nil => exact absurd rfl nonempty
  | append_singleton below name inductionHypothesis =>
      have parent := tree.isDirectory_dropLast present
      rw [← List.append_assoc, List.dropLast_concat] at parent
      by_cases empty : below = []
      · subst empty
        simpa using parent
      · apply inductionHypothesis empty
        rw [(tree.isDirectory_iff _).mp parent]
        rfl

@[ext] theorem ext
    {left right : FileTree α}
    (same : left.node = right.node) :
    left = right := by
  cases left with
  | mk leftNode leftPaths leftMem leftRoot leftLegal leftClosed =>
    cases right with
    | mk rightNode rightPaths rightMem rightRoot rightLegal rightClosed =>
      simp only at same
      subst same
      have samePaths : leftPaths = rightPaths := by
        ext path
        rw [leftMem, rightMem]
      subst samePaths
      rfl

/-! ## Creating and replacing -/

/-- The tree with nothing in it. -/
def empty : FileTree α where
  node := fun _ => none
  paths := ∅
  mem_paths := by simp
  rootless := rfl
  legal := by simp
  closed := by simp

instance : Inhabited (FileTree α) := ⟨empty⟩

/-- Put a node where no directory stands, inside an existing directory. -/
def insert
    (tree : FileTree α)
    (path : List String)
    (node : FileNode α)
    (nonempty : path ≠ [])
    (legal : ∀ name ∈ path, LegalName name)
    (leaf : tree.isDirectory path = false)
    (parent : tree.isDirectory path.dropLast = true) :
    FileTree α where
  node := Function.update tree.node path (some node)
  paths := Insert.insert path tree.paths
  mem_paths := by
    intro other
    by_cases same : other = path
    · subst same
      simp
    · simp [same, tree.mem_paths]
  rootless := by
    rw [Function.update_of_ne nonempty.symm, tree.rootless]
  legal := by
    intro other present
    by_cases same : other = path
    · subst same
      exact legal
    · rw [Function.update_of_ne same] at present
      exact tree.legal other present
  closed := by
    intro other present
    have shorter : path.dropLast ≠ path := by
      intro same
      have lengths := congrArg List.length same
      rw [List.length_dropLast] at lengths
      have positive := List.length_pos_of_ne_nil nonempty
      omega
    have parentOf : tree.isDirectory other.dropLast = true := by
      by_cases same : other = path
      · rw [same]
        exact parent
      · rw [Function.update_of_ne same] at present
        apply tree.isDirectory_dropLast
        by_cases root : other = []
        · subst root
          rfl
        · rw [lookup_of_ne_nil tree root]
          exact present
    by_cases root : other.dropLast = []
    · exact Or.inl root
    · right
      have different : other.dropLast ≠ path := by
        intro same
        rw [same, leaf] at parentOf
        cases parentOf
      rw [Function.update_of_ne different,
        ← lookup_of_ne_nil tree root]
      exact (tree.isDirectory_iff _).mp parentOf

section insert

variable (tree : FileTree α) (path : List String) (node : FileNode α)
  (nonempty : path ≠ []) (legal : ∀ name ∈ path, LegalName name)
  (leaf : tree.isDirectory path = false)
  (parent : tree.isDirectory path.dropLast = true)

@[simp] theorem lookup_insert_self :
    (tree.insert path node nonempty legal leaf parent).lookup path =
      some node := by
  rw [lookup_of_ne_nil _ nonempty]
  exact Function.update_self ..

theorem lookup_insert_of_ne
    {other : List String}
    (different : other ≠ path) :
    (tree.insert path node nonempty legal leaf parent).lookup other =
      tree.lookup other := by
  unfold lookup
  split
  · rfl
  · exact Function.update_of_ne different ..

end insert

/-- `mkdir`, tolerating a directory that exists already. -/
def makeDirectory (tree : FileTree α) (path : List String) :
    Option (FileTree α) :=
  if tree.isDirectory path then
    some tree
  else if fits : path ≠ [] ∧ (∀ name ∈ path, LegalName name) ∧
      (tree.lookup path).isNone ∧ tree.isDirectory path.dropLast then
    some (tree.insert path .directory fits.1 fits.2.1
      (by
        have absent := fits.2.2.1
        unfold isDirectory
        split <;> simp_all)
      fits.2.2.2)
  else
    none

/-- Moving a file onto a path replaces a file or a link, never a directory. -/
def placeFile (tree : FileTree α) (path : List String) (content : α) :
    Option (FileTree α) :=
  if fits : path ≠ [] ∧ (∀ name ∈ path, LegalName name) ∧
      tree.isDirectory path = false ∧ tree.isDirectory path.dropLast then
    some (tree.insert path (.file content) fits.1 fits.2.1 fits.2.2.1
      fits.2.2.2)
  else
    none

/-- Creating a file anew, which fails when the name is taken. -/
def createFile (tree : FileTree α) (path : List String) (content : α) :
    Option (FileTree α) :=
  if (tree.lookup path).isNone then tree.placeFile path content else none

/-- The directories on the way to a path, outermost first. -/
def ancestors (path : List String) : List (List String) :=
  path.inits.filter fun ancestor => ancestor ≠ []

/-- `create_dir_all`. -/
def makeDirectories (tree : FileTree α) (path : List String) :
    Option (FileTree α) :=
  (ancestors path).foldlM makeDirectory tree

theorem lookup_makeDirectory
    {tree after : FileTree α}
    {path : List String}
    (made : tree.makeDirectory path = some after)
    (other : List String) :
    after.lookup other = tree.lookup other ∨
      (other = path ∧ tree.lookup other = none ∧
        after.lookup other = some .directory) := by
  unfold makeDirectory at made
  split at made
  · cases made
    exact Or.inl rfl
  · split at made
    · next fits =>
        cases made
        by_cases same : other = path
        · right
          subst same
          refine ⟨rfl, ?_, lookup_insert_self ..⟩
          simpa using fits.2.2.1
        · exact Or.inl (lookup_insert_of_ne _ _ _ _ _ _ _ same)
    · cases made

theorem lookup_placeFile
    {tree after : FileTree α}
    {path : List String}
    {content : α}
    (placed : tree.placeFile path content = some after)
    (other : List String) :
    after.lookup other =
      if other = path then some (.file content) else tree.lookup other := by
  unfold placeFile at placed
  split at placed
  · cases placed
    split
    · next same =>
        subst same
        exact lookup_insert_self ..
    · next different => exact lookup_insert_of_ne _ _ _ _ _ _ _ different
  · cases placed

/-- Making directories leaves whatever exists as it is and adds directories
only. -/
theorem lookup_makeDirectories
    {tree after : FileTree α}
    {path : List String}
    (made : tree.makeDirectories path = some after)
    (other : List String) :
    after.lookup other = tree.lookup other ∨
      (tree.lookup other = none ∧
        after.lookup other = some .directory) := by
  unfold makeDirectories at made
  generalize ancestors path = steps at made
  induction steps generalizing tree with
  | nil =>
      cases made
      exact Or.inl rfl
  | cons step steps inductionHypothesis =>
      rw [List.foldlM_cons] at made
      obtain ⟨middle, first, remaining⟩ := Option.bind_eq_some_iff.mp made
      rcases lookup_makeDirectory first other with same | ⟨_, absent, added⟩
      · rcases inductionHypothesis remaining with later | ⟨absent, added⟩
        · exact Or.inl (later.trans same)
        · exact Or.inr ⟨same ▸ absent, added⟩
      · rcases inductionHypothesis remaining with later | ⟨blank, _⟩
        · exact Or.inr ⟨absent, later.trans added⟩
        · rw [added] at blank
          cases blank

/-! ## Removing -/

/-- Nothing lies below this path. -/
def Leaf (tree : FileTree α) (path : List String) : Prop :=
  ∀ other ∈ tree.paths, path <+: other → other = path

instance (tree : FileTree α) (path : List String) :
    Decidable (tree.Leaf path) :=
  inferInstanceAs (Decidable (∀ other ∈ tree.paths, _))

/-- `unlink` of a file or a link, `rmdir` of an empty directory. -/
def remove (tree : FileTree α) (path : List String) :
    Option (FileTree α) :=
  if fits : path ∈ tree.paths ∧ tree.Leaf path then
    some {
      node := Function.update tree.node path none
      paths := tree.paths.erase path
      mem_paths := by
        intro other
        by_cases same : other = path
        · simp [same]
        · simp [same, tree.mem_paths]
      rootless := by
        by_cases root : [] = path
        · simp [root]
        · rw [Function.update_of_ne root, tree.rootless]
      legal := by
        intro other present
        by_cases same : other = path
        · simp [same] at present
        · rw [Function.update_of_ne same] at present
          exact tree.legal other present
      closed := by
        intro other present
        by_cases same : other = path
        · simp [same] at present
        · rw [Function.update_of_ne same] at present
          have above : other.dropLast ≠ path := by
            rintro rfl
            exact same (fits.2 other ((tree.mem_paths other).mpr present)
              (List.dropLast_prefix other))
          rw [Function.update_of_ne above]
          exact tree.closed other present }
  else
    none

theorem lookup_remove
    {tree after : FileTree α}
    {path : List String}
    (removed : tree.remove path = some after)
    (other : List String) :
    after.lookup other = if other = path then none else tree.lookup other := by
  unfold remove at removed
  split at removed
  · next fits =>
      cases removed
      have nonempty := ((tree.mem_paths_iff path).mp fits.1).1
      by_cases same : other = path
      · subst same
        simp [lookup, nonempty]
      · simp only [lookup, if_neg same, Function.update_of_ne same]
  · cases removed

theorem exists_remove
    {tree : FileTree α}
    {path : List String}
    (present : path ∈ tree.paths)
    (leaf : tree.Leaf path) :
    ∃ after, tree.remove path = some after := by
  unfold remove
  rw [dif_pos ⟨present, leaf⟩]
  exact ⟨_, rfl⟩

/-! ## Pruning -/

/-- Drop every file that is not listed and everything that is neither a file
nor a directory, then the directories left without a file. -/
def prune (tree : FileTree α) (listed : List String → Bool) :
    FileTree α where
  node := fun path =>
    match tree.node path with
    | some (.file content) =>
        if listed path then some (.file content) else none
    | some .directory =>
        if ∃ file ∈ tree.paths, path <+: file ∧
            tree.isFile file ∧ listed file then
          some .directory
        else
          none
    | _ => none
  paths := tree.paths.filter fun path =>
    (match tree.node path with
    | some (.file _) => listed path
    | some .directory => decide (∃ file ∈ tree.paths, path <+: file ∧
        tree.isFile file ∧ listed file)
    | _ => false) = true
  mem_paths := by
    intro path
    rw [Finset.mem_filter, tree.mem_paths]
    cases present : tree.node path with
    | none => simp
    | some node =>
        cases node with
        | file content => by_cases kept : listed path <;> simp [kept]
        | directory =>
            by_cases kept : ∃ file ∈ tree.paths, path <+: file ∧
                tree.isFile file ∧ listed file
            · simp only [Option.isSome_some, decide_eq_true kept,
                and_self, if_pos kept]
            · simp only [decide_eq_false kept, if_neg kept,
                Option.isSome_none, Bool.false_eq_true, and_false]
        | link target => simp
  rootless := by rw [tree.rootless]
  legal := by
    intro path present
    apply tree.legal path
    cases stands : tree.node path with
    | none => simp [stands] at present
    | some node => rfl
  closed := by
    intro path present
    cases stands : tree.node path with
    | none =>
        rw [stands] at present
        cases present
    | some node =>
        have existing : (tree.node path).isSome := by
          rw [stands]
          rfl
        rcases tree.closed path existing with root | parent
        · exact Or.inl root
        · right
          have below : ∃ file ∈ tree.paths, path <+: file ∧
              tree.isFile file ∧ listed file := by
            rw [stands] at present
            cases node with
            | file content =>
                refine ⟨path, (tree.mem_paths path).mpr existing,
                  List.prefix_rfl, ?_, ?_⟩
                · have nonempty : path ≠ [] := by
                    intro root
                    rw [root, tree.rootless] at stands
                    cases stands
                  rw [isFile_iff, lookup_of_ne_nil tree nonempty, stands]
                  exact ⟨content, rfl⟩
                · by_contra unlisted
                  simp [unlisted] at present
            | directory =>
                by_contra nothing
                simp only [if_neg nothing] at present
                cases present
            | link target => cases present
          obtain ⟨file, member, under, isFile, kept⟩ := below
          simp only [parent]
          rw [if_pos]
          exact ⟨file, member,
            (List.dropLast_prefix path).trans under, isFile, kept⟩

theorem lookup_prune_file
    (tree : FileTree α)
    (listed : List String → Bool)
    (path : List String)
    (content : α) :
    (tree.prune listed).lookup path = some (.file content) ↔
      tree.lookup path = some (.file content) ∧ listed path = true := by
  unfold lookup
  by_cases root : path = []
  · simp [root]
  · simp only [root, if_false, prune]
    cases tree.node path with
    | none => simp
    | some node =>
        cases node with
        | file other => by_cases kept : listed path <;> simp [kept]
        | directory => split <;> simp_all
        | link target => simp

theorem lookup_prune_ne_link
    (tree : FileTree α)
    (listed : List String → Bool)
    (path : List String)
    (target : Option (List String)) :
    (tree.prune listed).lookup path ≠ some (.link target) := by
  unfold lookup
  by_cases root : path = []
  · simp [root]
  · simp only [root, if_false, prune]
    cases tree.node path with
    | none => simp
    | some node =>
        cases node with
        | file other => by_cases kept : listed path <;> simp [kept]
        | directory => split <;> simp_all
        | link target => simp

/-! ## Following links -/

/-- Walk along components from a directory.  Empty and `.` components stay
where they are, but only in a directory; what a link stands for is left to
`follow`. -/
def walk
    (tree : FileTree α)
    (follow : List String → Option (List String)) :
    List String → List String → Option (List String)
  | here, [] => some here
  | here, component :: rest =>
      if tree.isDirectory here then
        if component = "" ∨ component = "." then
          walk tree follow here rest
        else if component = ".." then
          if here = [] then none else walk tree follow here.dropLast rest
        else
          match tree.lookup (here ++ [component]) with
          | none => none
          | some (.link none) => none
          | some (.link (some target)) => follow (target ++ rest)
          | some _ => walk tree follow (here ++ [component]) rest
      else
        none

/-- The real position of a path in the tree, through at most this many
links. -/
def resolve (tree : FileTree α) : Nat → List String → Option (List String)
  | 0, components => tree.walk (fun _ => none) [] components
  | links + 1, components => tree.walk (tree.resolve links) [] components

/-- `fs::canonicalize` below the root of the tree; the system gives up after
forty links. -/
def canonicalize (tree : FileTree α) (components : List String) :
    Option (List String) :=
  tree.resolve 40 components

/-- `fs::symlink_metadata`: the last component is not followed, unless it can
only stand for a directory. -/
def lstat (tree : FileTree α) (components : List String) :
    Option (FileNode α) :=
  match components.getLast? with
  | none => some .directory
  | some last =>
      if last = "" ∨ last = "." then
        match tree.canonicalize components with
        | some place =>
            if tree.isDirectory place then some .directory else none
        | none => none
      else
        match tree.canonicalize components.dropLast with
        | some parent => tree.lookup (parent ++ [last])
        | none => none

/-- A path at which something other than a link is in place leads to itself:
no link can be on the way. -/
theorem walk_plain
    (tree : FileTree α)
    (follow : List String → Option (List String))
    (here components : List String)
    (notLink : ∀ target,
      tree.lookup (here ++ components) ≠ some (.link target))
    (present : (tree.lookup (here ++ components)).isSome) :
    tree.walk follow here components = some (here ++ components) := by
  induction components generalizing here with
  | nil => simp [walk]
  | cons component rest inductionHypothesis =>
      have directory : tree.isDirectory here = true :=
        tree.isDirectory_of_append here (component :: rest)
          (by simp) present
      obtain ⟨notEmpty, notDot, notParent, _⟩ :=
        tree.legal_of_lookup present component (by simp)
      have step : here ++ component :: rest =
          (here ++ [component]) ++ rest := by simp
      rw [step] at notLink present ⊢
      have onward := inductionHypothesis (here ++ [component])
        notLink present
      unfold walk
      rw [if_pos directory, if_neg (by simp [notEmpty, notDot]),
        if_neg notParent]
      by_cases last : rest = []
      · subst last
        simp only [List.append_nil] at notLink present onward ⊢
        cases stands : tree.lookup (here ++ [component]) with
        | none =>
            rw [stands] at present
            cases present
        | some node =>
            cases node with
            | file content => exact onward
            | directory => exact onward
            | link target => exact absurd stands (notLink target)
      · have above := tree.isDirectory_of_append (here ++ [component])
          rest last present
        rw [(tree.isDirectory_iff _).mp above]
        exact onward

theorem canonicalize_plain
    (tree : FileTree α)
    (components : List String)
    (notLink : ∀ target, tree.lookup components ≠ some (.link target))
    (present : (tree.lookup components).isSome) :
    tree.canonicalize components = some components :=
  tree.walk_plain _ [] components notLink present

/-! ## Trees without links -/

/-- No path of the tree is a link. -/
def Linkless (tree : FileTree α) : Prop :=
  ∀ path target, tree.lookup path ≠ some (.link target)

theorem Linkless.makeDirectory
    {tree after : FileTree α}
    {path : List String}
    (linkless : tree.Linkless)
    (made : tree.makeDirectory path = some after) :
    after.Linkless := by
  intro other target
  rcases lookup_makeDirectory made other with same | ⟨_, _, added⟩
  · rw [same]
    exact linkless other target
  · rw [added]
    simp

theorem Linkless.placeFile
    {tree after : FileTree α}
    {path : List String}
    {content : α}
    (linkless : tree.Linkless)
    (placed : tree.placeFile path content = some after) :
    after.Linkless := by
  intro other target
  rw [lookup_placeFile placed]
  split
  · simp
  · exact linkless other target

theorem linkless_prune (tree : FileTree α) (listed : List String → Bool) :
    (tree.prune listed).Linkless :=
  fun path target => lookup_prune_ne_link tree listed path target

/-- The components of a path that name something. -/
def plain (components : List String) : List String :=
  components.filter fun component => component ≠ "" ∧ component ≠ "."

theorem plain_cons_of_blank
    {component : String}
    (blank : component = "" ∨ component = ".")
    (rest : List String) :
    plain (component :: rest) = plain rest := by
  unfold plain
  rw [List.filter_cons_of_neg]
  rw [decide_eq_true_eq, not_and_or, not_not, not_not]
  exact blank

theorem plain_cons_of_named
    {component : String}
    (named : ¬(component = "" ∨ component = "."))
    (rest : List String) :
    plain (component :: rest) = component :: plain rest := by
  unfold plain
  rw [List.filter_cons_of_pos]
  rw [decide_eq_true_eq]
  exact not_or.mp named

theorem plain_eq_self
    {components : List String}
    (named : ∀ component ∈ components,
      component ≠ "" ∧ component ≠ ".") :
    plain components = components := by
  apply List.filter_eq_self.mpr
  intro component member
  simpa using named component member

/-- Without links a path leads where its components say. -/
theorem Linkless.walk_eq
    {tree : FileTree α}
    {follow : List String → Option (List String)}
    {here components place : List String}
    (linkless : tree.Linkless)
    (inside : ".." ∉ components)
    (walked : tree.walk follow here components = some place) :
    place = here ++ plain components := by
  induction components generalizing here with
  | nil =>
      unfold walk at walked
      rw [plain, List.filter_nil, List.append_nil, Option.some.inj walked]
  | cons component rest inductionHypothesis =>
      rw [List.mem_cons, not_or] at inside
      unfold walk at walked
      split at walked
      · split at walked
        · next blank =>
            rw [plain_cons_of_blank blank]
            exact inductionHypothesis inside.2 walked
        · next named =>
            rw [if_neg fun same => inside.1 same.symm] at walked
            split at walked
            · cases walked
            · next stands => exact absurd stands (linkless _ _)
            · next stands => exact absurd stands (linkless _ _)
            · rw [inductionHypothesis inside.2 walked,
                plain_cons_of_named named]
              simp
      · cases walked

theorem Linkless.canonicalize_eq
    {tree : FileTree α}
    {components place : List String}
    (linkless : tree.Linkless)
    (inside : ".." ∉ components)
    (leads : tree.canonicalize components = some place) :
    place = plain components :=
  linkless.walk_eq inside leads

/-- A path that ends with a slash leads to a directory. -/
theorem Linkless.isDirectory_of_walk
    {tree : FileTree α}
    {follow : List String → Option (List String)}
    {here components place : List String}
    (linkless : tree.Linkless)
    (final : components.getLast? = some "")
    (walked : tree.walk follow here components = some place) :
    tree.isDirectory place = true := by
  induction components generalizing here with
  | nil => cases final
  | cons component rest inductionHypothesis =>
      unfold walk at walked
      split at walked
      swap
      · cases walked
      next directory =>
        by_cases ends : rest = []
        · subst ends
          rw [List.getLast?_singleton] at final
          cases final
          rw [if_pos (Or.inl rfl), walk] at walked
          cases walked
          exact directory
        · rw [List.getLast?_cons_of_ne_nil ends] at final
          split at walked
          · exact inductionHypothesis final walked
          · split at walked
            · split at walked
              · cases walked
              · exact inductionHypothesis final walked
            · split at walked
              · cases walked
              · next stands => exact absurd stands (linkless _ _)
              · next stands => exact absurd stands (linkless _ _)
              · exact inductionHypothesis final walked

/-- A path to a file is followed, unless it ends as one to a directory. -/
theorem walk_of_file
    {tree : FileTree α}
    {follow : List String → Option (List String)}
    {here components : List String}
    {last : String}
    {content : α}
    (final : components.getLast? = some last)
    (named : last ≠ "" ∧ last ≠ ".")
    (stands : tree.lookup (here ++ plain components) =
      some (.file content)) :
    tree.walk follow here components = some (here ++ plain components) := by
  induction components generalizing here with
  | nil => cases final
  | cons component rest inductionHypothesis =>
      by_cases ends : rest = []
      · subst ends
        rw [List.getLast?_singleton] at final
        cases final
        have whole : plain [last] = [last] :=
          plain_eq_self (by simpa using named)
        rw [whole] at stands ⊢
        apply tree.walk_plain
        · intro target
          rw [stands]
          simp
        · rw [stands]
          rfl
      · have finalRest : rest.getLast? = some last := by
          rw [List.getLast?_cons_of_ne_nil ends] at final
          exact final
        have nonempty : plain rest ≠ [] := by
          intro nothing
          have member : last ∈ plain rest := by
            apply List.mem_filter.mpr
            exact ⟨List.mem_of_getLast? finalRest, by simpa using named⟩
          rw [nothing] at member
          cases member
        unfold walk
        by_cases blank : component = "" ∨ component = "."
        · rw [plain_cons_of_blank blank] at stands ⊢
          rw [if_pos (tree.isDirectory_of_append here (plain rest) nonempty
            (by rw [stands]; rfl)), if_pos blank]
          exact inductionHypothesis finalRest stands
        · rw [plain_cons_of_named blank] at stands ⊢
          have regroup : here ++ component :: plain rest =
              (here ++ [component]) ++ plain rest := by simp
          have directory := tree.isDirectory_of_append here
            (component :: plain rest) (by simp) (by rw [stands]; rfl)
          rw [regroup] at stands ⊢
          have above := tree.isDirectory_of_append (here ++ [component])
            (plain rest) nonempty (by rw [stands]; rfl)
          have standing : (tree.lookup (here ++ [component])).isSome := by
            rw [(tree.isDirectory_iff _).mp above]
            rfl
          have legal := tree.legal_of_lookup standing component (by simp)
          rw [if_pos directory, if_neg blank, if_neg legal.2.2.1,
            (tree.isDirectory_iff _).mp above]
          exact inductionHypothesis finalRest stands

/-- What `lstat` finds to be a file does not end as a directory. -/
theorem getLast_of_lstat
    {tree : FileTree α}
    {components : List String}
    {content : α}
    (found : tree.lstat components = some (.file content)) :
    ∃ last, components.getLast? = some last ∧ last ≠ "" ∧ last ≠ "." := by
  unfold lstat at found
  split at found
  · cases found
  · next last final =>
      split at found
      · split at found
        · split at found <;> cases found
        · cases found
      · next named => exact ⟨last, final, not_or.mp named⟩

/-! ## Where paths lead -/

/-- Something stands here, and it is not a link. -/
def Stands (tree : FileTree α) (path : List String) : Prop :=
  (tree.lookup path).isSome ∧
    ∀ target, tree.lookup path ≠ some (.link target)

theorem stands_nil (tree : FileTree α) : tree.Stands [] := by
  simp [Stands]

theorem walk_stands
    {tree : FileTree α}
    {follow : List String → Option (List String)}
    {here components place : List String}
    (stands : tree.Stands here)
    (follows : ∀ onward found, follow onward = some found →
      tree.Stands found)
    (walked : tree.walk follow here components = some place) :
    tree.Stands place := by
  induction components generalizing here with
  | nil =>
      unfold walk at walked
      cases walked
      exact stands
  | cons component rest inductionHypothesis =>
      unfold walk at walked
      split at walked
      · split at walked
        · exact inductionHypothesis stands walked
        · split at walked
          · split at walked
            · cases walked
            · next directory _ _ inside =>
                apply inductionHypothesis _ walked
                have parent := tree.isDirectory_dropLast stands.1
                rw [isDirectory_iff] at parent
                simp [Stands, parent]
          · split at walked
            · cases walked
            · cases walked
            · exact follows _ _ walked
            · next node notDangling notLink found =>
                apply inductionHypothesis _ walked
                refine ⟨by rw [found]; rfl, ?_⟩
                intro target same
                rw [found, Option.some.injEq] at same
                subst same
                cases target with
                | none => exact notDangling rfl
                | some target => exact notLink target rfl
      · cases walked

/-- A path leads to something that is not a link itself. -/
theorem stands_of_canonicalize
    {tree : FileTree α}
    {components place : List String}
    (leads : tree.canonicalize components = some place) :
    tree.Stands place := by
  unfold canonicalize at leads
  generalize 40 = links at leads
  induction links generalizing components place with
  | zero => exact walk_stands tree.stands_nil (by simp) leads
  | succ links inductionHypothesis =>
      exact walk_stands tree.stands_nil
        (fun _ _ => inductionHypothesis) leads

/-- Where a path leads is where that place leads. -/
theorem Stands.canonicalize
    {tree : FileTree α}
    {place : List String}
    (stands : tree.Stands place) :
    tree.canonicalize place = some place :=
  tree.canonicalize_plain place stands.2 stands.1

/-! ## Directory listings -/

/-- The names in a directory. -/
def entries (tree : FileTree α) (place : List String) : Finset String :=
  (tree.paths.filter fun path => path.dropLast = place).image
    fun path => path.getLastD ""

theorem mem_entries
    {tree : FileTree α}
    {place : List String}
    {name : String} :
    name ∈ tree.entries place ↔ (tree.lookup (place ++ [name])).isSome := by
  simp only [entries, Finset.mem_image, Finset.mem_filter, mem_paths_iff]
  constructor
  · rintro ⟨path, ⟨⟨nonempty, present⟩, rfl⟩, rfl⟩
    rw [List.getLastD_eq_getLast?, List.getLast?_eq_some_getLast nonempty,
      Option.getD_some, List.dropLast_append_getLast nonempty]
    exact present
  · intro present
    exact ⟨place ++ [name], ⟨⟨by simp, present⟩, by simp⟩, by simp⟩

/-- The names of a set, in the order of a listing. -/
def sortNames (names : Finset String) : List String :=
  Quot.liftOn names.val (fun list => list.insertionSort (· ≤ ·)) (by
    intro left right perm
    exact List.Perm.eq_of_pairwise' (List.pairwise_insertionSort _ _)
      (List.pairwise_insertionSort _ _)
      (((List.perm_insertionSort _ _).trans perm).trans
        (List.perm_insertionSort _ _).symm))

@[simp] theorem mem_sortNames
    {names : Finset String}
    {name : String} :
    name ∈ sortNames names ↔ name ∈ names := by
  cases names with
  | mk names nodup =>
      induction names using Quot.inductionOn with
      | h list => exact List.mem_insertionSort _

end FileTree
