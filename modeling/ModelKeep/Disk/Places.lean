import ModelKeep.FileTree

/-!
# Where a path leads, and on what that depends

A walk along a path either comes to a place or is blocked for a reason.  Below
a directory whose links lead back into it, both depend on that directory alone,
and on the directories above it being there.
-/

namespace FileTree

variable {α : Type}

/-! ## Walks that say why they stop -/

/-- Why a path leads nowhere. -/
inductive Blocked
  | missing
  | notDirectory
  | tooManyLinks
  deriving DecidableEq

/-- `walk`, with the reason for which it stops. -/
def trace
    (tree : FileTree α)
    (follow : List String → Except Blocked (List String)) :
    List String → List String → Except Blocked (List String)
  | here, [] => .ok here
  | here, component :: rest =>
      if tree.isDirectory here then
        if component = "" ∨ component = "." then
          trace tree follow here rest
        else if component = ".." then
          if here = [] then .error .missing
          else trace tree follow here.dropLast rest
        else
          match tree.lookup (here ++ [component]) with
          | none => .error .missing
          | some (.link none) => .error .missing
          | some (.link (some target)) => follow (target ++ rest)
          | some _ => trace tree follow (here ++ [component]) rest
      else
        .error .notDirectory

/-- `resolve`, with the reason for which it stops. -/
def traceLinks (tree : FileTree α) :
    Nat → List String → Except Blocked (List String)
  | 0, components => tree.trace (fun _ => .error .tooManyLinks) [] components
  | links + 1, components => tree.trace (tree.traceLinks links) [] components

theorem toOption_trace
    (tree : FileTree α)
    (follow : List String → Except Blocked (List String))
    (here components : List String) :
    (tree.trace follow here components).toOption =
      tree.walk (fun path => (follow path).toOption) here components := by
  induction components generalizing here with
  | nil => rfl
  | cons component rest inductionHypothesis =>
      unfold trace walk
      split
      · split
        · exact inductionHypothesis here
        · split
          · split
            · rfl
            · exact inductionHypothesis _
          · cases tree.lookup (here ++ [component]) with
            | none => rfl
            | some node =>
                cases node with
                | file content => exact inductionHypothesis _
                | directory => exact inductionHypothesis _
                | link target =>
                    cases target with
                    | none => rfl
                    | some target => rfl
      · rfl

theorem toOption_traceLinks
    (tree : FileTree α)
    (links : Nat)
    (components : List String) :
    (tree.traceLinks links components).toOption =
      tree.resolve links components := by
  induction links generalizing components with
  | zero => exact toOption_trace ..
  | succ links inductionHypothesis =>
      unfold traceLinks resolve
      rw [toOption_trace]
      congr 1
      funext path
      exact inductionHypothesis path

/-! ## Directories that keep to themselves -/

/-- Every link below the directory leads into it, and not out of it again. -/
def Contained (tree : FileTree α) (top : List String) : Prop :=
  ∀ path target, top <+: path →
    tree.lookup path = some (.link (some target)) →
      top <+: target ∧ ".." ∉ target

/-- A path whose components are names, with nothing above it that is a
link. -/
structure Anchored (tree : FileTree α) (top : List String) : Prop where
  legal : ∀ name ∈ top, LegalName name
  unlinked : ∀ above, above <+: top → above ≠ top → ∀ target,
    tree.lookup above ≠ some (.link target)

/-- After a change elsewhere: the directory is the same, and of what is above
it only what was missing has become a directory. -/
structure Alike (top : List String) (before after : FileTree α) : Prop where
  below : ∀ path, top <+: path → after.lookup path = before.lookup path
  above : ∀ path, path <+: top → path ≠ top →
    after.lookup path = before.lookup path ∨
      before.lookup path = none ∧ after.lookup path = some .directory

theorem Alike.refl (top : List String) (tree : FileTree α) :
    Alike top tree tree :=
  ⟨fun _ _ => rfl, fun _ _ _ => Or.inl rfl⟩


section alike

variable {top : List String} {before after : FileTree α}
  {follow followAfter : List String → Except Blocked (List String)}

/-- The links that are followed lead to the same place, in the directory. -/
def Follows (top : List String)
    (follow followAfter : List String → Except Blocked (List String)) :
    Prop :=
  ∀ path, top <+: path → ".." ∉ path →
    followAfter path = follow path ∧
      ∀ place, follow path = .ok place → top <+: place

/-- A walk that is in the directory stays there. -/
theorem Alike.trace_inside
    (alike : Alike top before after)
    (contained : before.Contained top)
    (follows : Follows top follow followAfter)
    {here components : List String}
    (inside : top <+: here)
    (onward : ".." ∉ components) :
    after.trace followAfter here components =
        before.trace follow here components ∧
      ∀ place, before.trace follow here components = .ok place →
        top <+: place := by
  induction components generalizing here with
  | nil =>
      refine ⟨rfl, fun place leads => ?_⟩
      cases leads
      exact inside
  | cons component rest inductionHypothesis =>
      rw [List.mem_cons, not_or] at onward
      have deeper : top <+: here ++ [component] :=
        inside.trans (List.prefix_append ..)
      have sameHere : after.isDirectory here = before.isDirectory here := by
        unfold isDirectory
        rw [alike.below here inside]
      unfold trace
      rw [sameHere, alike.below _ deeper]
      split
      · split
        · exact inductionHypothesis inside onward.2
        · rw [if_neg fun same => onward.1 same.symm,
            if_neg fun same => onward.1 same.symm]
          split
          · exact ⟨rfl, nofun⟩
          · exact ⟨rfl, nofun⟩
          · next target link =>
              obtain ⟨back, plain⟩ := contained _ target deeper link
              apply follows
              · exact back.trans (List.prefix_append ..)
              · rw [List.mem_append, not_or]
                exact ⟨plain, onward.2⟩
          · exact inductionHypothesis deeper onward.2
      · exact ⟨rfl, nofun⟩

/-- Where the directory is missing, a walk towards it finds nothing. -/
theorem trace_of_absent
    {tree : FileTree α}
    {here rest : List String}
    (components : List String)
    (towards : here ++ rest = top)
    (nonempty : rest ≠ [])
    (legal : ∀ name ∈ top, LegalName name)
    (directory : tree.lookup here = some .directory)
    (absent : tree.lookup top = none)
    (above : ∀ path, path <+: top → path ≠ top →
      here.length ≤ path.length →
        tree.lookup path = none ∨ tree.lookup path = some .directory) :
    tree.trace follow here (rest ++ components) = .error .missing := by
  induction rest generalizing here with
  | nil => exact absurd rfl nonempty
  | cons component rest inductionHypothesis =>
      have named := legal component (by rw [← towards]; simp)
      have regroup : (here ++ [component]) ++ rest = top := by
        rw [← towards]
        simp
      rw [List.cons_append]
      unfold trace
      rw [if_pos ((tree.isDirectory_iff here).mpr directory),
        if_neg (by simp [named.1, named.2.1]), if_neg named.2.2.1]
      by_cases last : rest = []
      · subst last
        rw [List.append_nil] at regroup
        rw [regroup, absent]
      · have shorter : here ++ [component] ≠ top := by
          intro same
          rw [same] at regroup
          exact last (List.append_right_eq_self.mp regroup)
        rcases above (here ++ [component]) ⟨rest, regroup⟩ shorter
            (by simp) with missing | standing
        · rw [missing]
        · rw [standing]
          apply inductionHypothesis regroup last standing
          intro path onTheWay different longer
          exact above path onTheWay different
            ((by simp : here.length ≤ (here ++ [component]).length).trans
              longer)

/-- A walk towards the directory comes to the same place. -/
theorem Alike.trace_towards
    (alike : Alike top before after)
    (anchored : before.Anchored top)
    (contained : before.Contained top)
    (follows : Follows top follow followAfter)
    {here rest components : List String}
    (towards : here ++ rest = top)
    (standing : rest = [] ∨ before.lookup here = some .directory)
    (onward : ".." ∉ components) :
    after.trace followAfter here (rest ++ components) =
        before.trace follow here (rest ++ components) ∧
      ∀ place, before.trace follow here (rest ++ components) = .ok place →
        top <+: place := by
  induction rest generalizing here with
  | nil =>
      rw [List.append_nil] at towards
      subst towards
      exact alike.trace_inside contained follows List.prefix_rfl onward
  | cons component rest inductionHypothesis =>
      replace standing := standing.resolve_left (by simp)
      have named := anchored.legal component (by rw [← towards]; simp)
      have regroup : (here ++ [component]) ++ rest = top := by
        rw [← towards]
        simp
      have onTheWay : here <+: top := ⟨_, towards⟩
      have different : here ≠ top := by
        rintro rfl
        simp at towards
      have standingAfter : after.lookup here = some .directory := by
        rcases alike.above here onTheWay different with same | ⟨none, _⟩
        · exact same.trans standing
        · rw [standing] at none
          cases none
      rw [List.cons_append]
      unfold trace
      have blank : ¬(component = "" ∨ component = ".") :=
        not_or.mpr ⟨named.1, named.2.1⟩
      simp only [(after.isDirectory_iff here).mpr standingAfter,
        (before.isDirectory_iff here).mpr standing, if_true, if_neg blank,
        if_neg named.2.2.1]
      by_cases last : rest = []
      · subst last
        rw [List.append_nil] at regroup
        rw [regroup, alike.below top List.prefix_rfl]
        split
        · exact ⟨rfl, nofun⟩
        · exact ⟨rfl, nofun⟩
        · next target link =>
            obtain ⟨back, plain⟩ :=
              contained top target List.prefix_rfl link
            apply follows
            · exact back.trans (List.prefix_append ..)
            · rw [List.mem_append, not_or]
              exact ⟨plain, onward⟩
        · exact alike.trace_inside contained follows List.prefix_rfl onward
      · have shorter : here ++ [component] ≠ top := by
          intro same
          rw [same] at regroup
          exact last (List.append_right_eq_self.mp regroup)
        have above : here ++ [component] <+: top := ⟨rest, regroup⟩
        rcases alike.above _ above shorter with same | ⟨missing, directory⟩
        · rw [same]
          cases stands : before.lookup (here ++ [component]) with
          | none => exact ⟨rfl, nofun⟩
          | some node =>
              cases node with
              | link target =>
                  exact absurd stands
                    (anchored.unlinked _ above shorter target)
              | directory =>
                  exact inductionHypothesis regroup (Or.inr stands)
              | file content =>
                  obtain ⟨next, others, rfl⟩ :=
                    List.exists_cons_of_ne_nil last
                  have blocked : before.isDirectory (here ++ [component]) =
                      false := by
                    unfold isDirectory
                    rw [stands]
                  have blockedAfter : after.isDirectory
                      (here ++ [component]) = false := by
                    unfold isDirectory
                    rw [same, stands]
                  simp [trace, blocked, blockedAfter]
        · have gone : ∀ path, here ++ [component] <+: path →
              before.lookup path = none := by
            rintro path ⟨tail, rfl⟩
            by_contra present
            have isSome := Option.isSome_iff_ne_none.mpr present
            by_cases ends : tail = []
            · subst ends
              rw [List.append_nil, missing] at isSome
              cases isSome
            · have directoryHere :=
                before.isDirectory_of_append _ tail ends isSome
              rw [isDirectory_iff, missing] at directoryHere
              cases directoryHere
          rw [missing, directory]
          dsimp only
          rw [trace_of_absent components regroup last anchored.legal
            directory]
          · exact ⟨rfl, nofun⟩
          · rw [alike.below top List.prefix_rfl]
            exact gone top above
          · intro path up notTop longer
            have under : here ++ [component] <+: path :=
              List.prefix_of_prefix_length_le above up longer
            rcases alike.above path up notTop with unchanged | ⟨_, made⟩
            · left
              rw [unchanged]
              exact gone path under
            · exact Or.inr made

/-- Where a path below the directory leads depends on the directory alone. -/
theorem Alike.traceLinks
    (alike : Alike top before after)
    (anchored : before.Anchored top)
    (contained : before.Contained top)
    (links : Nat) :
    Follows top (before.traceLinks links) (after.traceLinks links) := by
  have root : before.lookup [] = some .directory := rfl
  induction links with
  | zero =>
      rintro path ⟨components, rfl⟩ onward
      have follows : Follows top (fun _ => Except.error Blocked.tooManyLinks)
          fun _ => .error .tooManyLinks := fun _ _ _ => ⟨rfl, nofun⟩
      rw [List.mem_append, not_or] at onward
      exact alike.trace_towards anchored contained follows
        (List.nil_append top) (Or.inr root) onward.2
  | succ links inductionHypothesis =>
      rintro path ⟨components, rfl⟩ onward
      rw [List.mem_append, not_or] at onward
      exact alike.trace_towards anchored contained inductionHypothesis
        (List.nil_append top) (Or.inr root) onward.2

end alike


/-! ## The entry a path names -/

section place

variable (tree : FileTree α)

/-- The entry that a path names; the last component is not followed.  A path
that ends in an empty, `.` or `..` component names none that could be made or
removed. -/
def place (path : List String) : Option (List String) :=
  match path.getLast? with
  | none => none
  | some last =>
      if last = "" ∨ last = "." ∨ last = ".." then none
      else
        (tree.canonicalize path.dropLast).bind fun parent =>
          if tree.isDirectory parent then some (parent ++ [last]) else none

/-- Where a path leads that is opened to be written: a link is followed, also
to what does not exist yet. -/
def target : Nat → List String → Option (List String)
  | links, path =>
      match tree.place path with
      | none => none
      | some place =>
          match links, tree.lookup place with
          | links + 1, some (.link (some onward)) => target links onward
          | _, some (.link _) => none
          | _, _ => some place

variable {tree} {top : List String}

theorem place_ne_nil
    {path place : List String}
    (names : tree.place path = some place) :
    place ≠ [] := by
  unfold FileTree.place at names
  split at names
  · cases names
  · split at names
    · cases names
    · obtain ⟨parent, _, named⟩ := Option.bind_eq_some_iff.mp names
      split at named
      · cases named
        simp
      · cases named

theorem canonicalize_eq_trace (components : List String) :
    tree.canonicalize components =
      (tree.traceLinks 40 components).toOption :=
  (toOption_traceLinks ..).symm

/-- A path below a directory that keeps to itself stays below it. -/
theorem Anchored.canonicalize_inside
    {path place : List String}
    (anchored : tree.Anchored top)
    (contained : tree.Contained top)
    (inside : top <+: path)
    (onward : ".." ∉ path)
    (leads : tree.canonicalize path = some place) :
    top <+: place := by
  rw [canonicalize_eq_trace] at leads
  have follows := (Alike.refl top tree).traceLinks anchored contained 40
  apply (follows path inside onward).2
  cases outcome : tree.traceLinks 40 path with
  | error blocked =>
      rw [outcome] at leads
      cases leads
  | ok found =>
      rw [outcome] at leads
      cases leads
      rfl

/-- Along a path without links the walk is literal. -/
theorem walk_unlinked
    {follow : List String → Option (List String)}
    {here components place : List String}
    (legal : ∀ name ∈ components, LegalName name)
    (unlinked : ∀ above, above <+: here ++ components → ∀ target,
      tree.lookup above ≠ some (.link target))
    (walked : tree.walk follow here components = some place) :
    place = here ++ components := by
  induction components generalizing here with
  | nil =>
      unfold walk at walked
      rw [List.append_nil, Option.some.inj walked]
  | cons component rest inductionHypothesis =>
      rw [List.forall_mem_cons] at legal
      obtain ⟨⟨notEmpty, notDot, notParent, _⟩, legal⟩ := legal
      have regroup : here ++ component :: rest =
          (here ++ [component]) ++ rest := by simp
      have step : here ++ [component] <+: here ++ component :: rest :=
        ⟨rest, regroup.symm⟩
      unfold walk at walked
      split at walked
      · rw [if_neg (not_or.mpr ⟨notEmpty, notDot⟩)] at walked
        split at walked
        · cases walked
        · cases walked
        · next link => exact absurd link (unlinked _ step _)
        · rw [regroup] at unlinked ⊢
          exact inductionHypothesis legal unlinked walked
      · cases walked

theorem Anchored.of_prefix
    {above : List String}
    (anchored : tree.Anchored top)
    (inside : above <+: top) :
    tree.Anchored above where
  legal := fun name member => anchored.legal name (inside.subset member)
  unlinked := by
    intro further onTheWay shorter
    apply anchored.unlinked further (onTheWay.trans inside)
    rintro rfl
    exact shorter (onTheWay.eq_of_length_le inside.length_le)

/-- What stands at an anchored path, if it is no link, is where the path
leads. -/
theorem Anchored.canonicalize
    (anchored : tree.Anchored top)
    (unlinked : ∀ target, tree.lookup top ≠ some (.link target)) :
    tree.canonicalize top =
      if (tree.lookup top).isSome then some top else none := by
  split
  · next present => exact tree.canonicalize_plain top unlinked present
  · next absent =>
      by_contra leads
      obtain ⟨place, leads⟩ := Option.ne_none_iff_exists'.mp leads
      have stands := (stands_of_canonicalize leads).1
      have literal : place = [] ++ top := by
        apply walk_unlinked anchored.legal _ leads
        intro above inside
        by_cases whole : above = top
        · rw [whole]
          exact unlinked
        · exact anchored.unlinked above inside whole
      rw [literal, List.nil_append] at stands
      exact absent stands

/-- An anchored path names itself. -/
theorem Anchored.place
    (anchored : tree.Anchored top)
    (nonempty : top ≠ []) :
    tree.place top =
      if tree.isDirectory top.dropLast then some top else none := by
  obtain ⟨notEmpty, notDot, notParent, _⟩ :=
    anchored.legal _ (List.getLast_mem nonempty)
  have shorter : top.dropLast ≠ top := by
    intro same
    have lengths := congrArg List.length same
    have positive := List.length_pos_of_ne_nil nonempty
    rw [List.length_dropLast] at lengths
    omega
  have parent := (anchored.of_prefix (List.dropLast_prefix top)).canonicalize
    (anchored.unlinked _ (List.dropLast_prefix top) shorter)
  unfold FileTree.place
  rw [List.getLast?_eq_some_getLast nonempty]
  dsimp only
  rw [if_neg (by simp [notEmpty, notDot, notParent]), parent]
  by_cases directory : tree.isDirectory top.dropLast = true
  · have present : (tree.lookup top.dropLast).isSome := by
      rw [(tree.isDirectory_iff _).mp directory]
      rfl
    rw [if_pos present, Option.bind_some, if_pos directory, if_pos directory,
      List.dropLast_append_getLast nonempty]
  · rw [if_neg directory]
    split
    · rw [Option.bind_some, if_neg directory]
    · rfl

/-- What a path below a directory that keeps to itself names is below it. -/
theorem Anchored.place_inside
    {path place : List String}
    (anchored : tree.Anchored top)
    (contained : tree.Contained top)
    (inside : top <+: path)
    (onward : ".." ∉ path)
    (names : tree.place path = some place) :
    top <+: place := by
  by_cases whole : path = top
  · subst whole
    by_cases root : path = []
    · subst root
      exact List.nil_prefix
    · rw [anchored.place root] at names
      split at names
      · cases names
        exact List.prefix_rfl
      · cases names
  · unfold FileTree.place at names
    split at names
    · cases names
    · next last final =>
        split at names
        · cases names
        · obtain ⟨parent, leads, named⟩ := Option.bind_eq_some_iff.mp names
          split at named
          · cases named
            have deeper : top <+: path.dropLast := by
              apply List.prefix_of_prefix_length_le inside
                (List.dropLast_prefix path)
              have shorter := inside.length_le
              have different : top.length ≠ path.length := fun same =>
                whole (inside.eq_of_length same).symm
              rw [List.length_dropLast]
              omega
            exact (anchored.canonicalize_inside contained deeper
              (fun member => onward (List.mem_of_mem_dropLast member))
              leads).trans (List.prefix_append ..)
          · cases named

/-- What is opened below a directory that keeps to itself is below it. -/
theorem Anchored.target_inside
    {path place : List String}
    {links : Nat}
    (anchored : tree.Anchored top)
    (contained : tree.Contained top)
    (inside : top <+: path)
    (onward : ".." ∉ path)
    (leads : tree.target links path = some place) :
    top <+: place := by
  induction links generalizing path with
  | zero =>
      unfold target at leads
      split at leads
      · cases leads
      · next found names =>
          split at leads
          · next more _ => cases more
          · cases leads
          · cases leads
            exact anchored.place_inside contained inside onward names
  | succ links inductionHypothesis =>
      unfold target at leads
      split at leads
      · cases leads
      · next found names =>
          have below := anchored.place_inside contained inside onward names
          split at leads
          · next fewer onwardTarget same link =>
              cases same
              obtain ⟨back, plain⟩ := contained found onwardTarget below link
              exact inductionHypothesis back plain leads
          · cases leads
          · cases leads
            exact below

/-- An anchored path that is no link is opened where it is. -/
theorem Anchored.target
    {place : List String}
    {links : Nat}
    (anchored : tree.Anchored top)
    (unlinked : ∀ target, tree.lookup top ≠ some (.link target))
    (leads : tree.target links top = some place) :
    place = top := by
  have nonempty : top ≠ [] := by
    rintro rfl
    unfold FileTree.target FileTree.place at leads
    cases leads
  unfold FileTree.target at leads
  rw [anchored.place nonempty] at leads
  split at leads
  · cases leads
  · next found names =>
      split at names
      · cases names
        split at leads
        · next link => exact absurd link (unlinked _)
        · cases leads
        · cases leads
          rfl
      · cases names

end place

end FileTree
