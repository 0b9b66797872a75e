import ModelKeep.FileSystem.Calls

/-!
# What a step leaves alone

A footprint is a set of tops; what is below them may change, and directories
above them may be made.  A step stays in its footprint when the paths it is
given lead there.  That they do is a matter of the links in the tree, and since
no step makes a link, it remains true once it is.
-/

namespace ModelKeep
namespace FileSystem

open Concurrency Program FileTree

/-! ## Links -/

/-- Every link was there before. -/
def FewerLinks (before after : FileTree Bytes) : Prop :=
  ∀ path target, after.lookup path = some (.link target) →
    before.lookup path = some (.link target)

theorem FewerLinks.refl (tree : FileTree Bytes) : FewerLinks tree tree :=
  fun _ _ => id

theorem FewerLinks.trans
    {first second third : FileTree Bytes}
    (earlier : FewerLinks first second)
    (later : FewerLinks second third) :
    FewerLinks first third :=
  fun path target stands => earlier path target (later path target stands)

theorem FewerLinks.anchored
    {before after : FileTree Bytes}
    {top : List String}
    (fewer : FewerLinks before after)
    (anchored : before.Anchored top) :
    after.Anchored top where
  legal := anchored.legal
  unlinked := fun above inside shorter target stands =>
    anchored.unlinked above inside shorter target (fewer above target stands)

theorem FewerLinks.contained
    {before after : FileTree Bytes}
    {top : List String}
    (fewer : FewerLinks before after)
    (contained : before.Contained top) :
    after.Contained top :=
  fun path target inside stands =>
    contained path target inside (fewer path _ stands)

/-- There is no link at this path or below. -/
def LinkFree (tree : FileTree Bytes) (top : List String) : Prop :=
  ∀ path target, top <+: path → tree.lookup path ≠ some (.link target)

theorem FewerLinks.linkFree
    {before after : FileTree Bytes}
    {top : List String}
    (fewer : FewerLinks before after)
    (free : LinkFree before top) :
    LinkFree after top :=
  fun path target inside stands =>
    free path target inside (fewer path target stands)

theorem LinkFree.contained
    {tree : FileTree Bytes}
    {top : List String}
    (free : LinkFree tree top) :
    tree.Contained top :=
  fun path target inside stands =>
    absurd stands (free path (some target) inside)

theorem LinkFree.below
    {tree : FileTree Bytes}
    {top path : List String}
    (free : LinkFree tree top)
    (inside : top <+: path) :
    LinkFree tree path :=
  fun further target deeper => free further target (inside.trans deeper)

/-- Where there is no directory there is nothing below. -/
theorem linkFree_of_not_directory
    {tree : FileTree Bytes}
    {top : List String}
    (flat : tree.isDirectory top = false)
    (unlinked : ∀ target, tree.lookup top ≠ some (.link target)) :
    LinkFree tree top := by
  rintro path target ⟨rest, rfl⟩ stands
  by_cases ends : rest = []
  · subst ends
    rw [List.append_nil] at stands
    exact unlinked target stands
  · have above := tree.isDirectory_of_append top rest ends
      (by rw [stands]; rfl)
    rw [flat] at above
    cases above

/-! ## Footprints -/

/-- Whether a path is in the footprint. -/
def Below (tops : List String → Prop) (path : List String) : Prop :=
  ∃ top, tops top ∧ top <+: path

/-- Whether a path is above the footprint. -/
def Above (tops : List String → Prop) (path : List String) : Prop :=
  ∃ top, tops top ∧ path <+: top

theorem Below.mono
    {tops : List String → Prop}
    {path further : List String}
    (below : Below tops path)
    (inside : path <+: further) :
    Below tops further := by
  obtain ⟨top, member, start⟩ := below
  exact ⟨top, member, start.trans inside⟩

/-- Outside the footprint nothing has changed, but for directories that were
made above it. -/
def Within (tops : List String → Prop) (before after : FileTree Bytes) :
    Prop :=
  ∀ path, ¬Below tops path →
    after.lookup path = before.lookup path ∨
      Above tops path ∧ before.lookup path = none ∧
        after.lookup path = some .directory

theorem Within.refl (tops : List String → Prop) (tree : FileTree Bytes) :
    Within tops tree tree :=
  fun _ _ => Or.inl rfl

theorem Within.trans
    {tops : List String → Prop}
    {first second third : FileTree Bytes}
    (earlier : Within tops first second)
    (later : Within tops second third) :
    Within tops first third := by
  intro path outside
  rcases earlier path outside with same | ⟨above, missing, made⟩
  · rcases later path outside with alike | ⟨above, missing, made⟩
    · exact Or.inl (alike.trans same)
    · exact Or.inr ⟨above, same ▸ missing, made⟩
  · rcases later path outside with alike | ⟨_, absent, _⟩
    · exact Or.inr ⟨above, missing, alike.trans made⟩
    · rw [made] at absent
      cases absent

theorem Within.mono
    {tops wider : List String → Prop}
    {before after : FileTree Bytes}
    (within : Within tops before after)
    (implies : ∀ top, tops top → wider top) :
    Within wider before after := by
  intro path outside
  have narrower : ¬Below tops path := by
    rintro ⟨top, member, inside⟩
    exact outside ⟨top, implies top member, inside⟩
  rcases within path narrower with same | ⟨⟨top, member, up⟩, changed⟩
  · exact Or.inl same
  · exact Or.inr ⟨⟨top, implies top member, up⟩, changed⟩

/-- A directory apart from the footprint is the same. -/
theorem Within.alike
    {tops : List String → Prop}
    {before after : FileTree Bytes}
    {place : List String}
    (within : Within tops before after)
    (apart : ∀ top, tops top → ¬top <+: place ∧ ¬place <+: top) :
    Alike place before after where
  below := by
    intro path inside
    have outside : ¬Below tops path := by
      rintro ⟨top, member, start⟩
      rcases List.prefix_or_prefix_of_prefix start inside with longer | shorter
      · exact (apart top member).1 longer
      · exact (apart top member).2 shorter
    rcases within path outside with same | ⟨⟨top, member, up⟩, _⟩
    · exact same
    · exact absurd (inside.trans up) (apart top member).2
  above := by
    intro path up _
    have outside : ¬Below tops path := by
      rintro ⟨top, member, start⟩
      exact (apart top member).1 (start.trans up)
    rcases within path outside with same | ⟨_, missing, made⟩
    · exact Or.inl same
    · exact Or.inr ⟨missing, made⟩

/-! ## Paths that lead into the footprint -/

section paths

variable (tops : List String → Prop) (tree : FileTree Bytes)

/-- A path below a directory of the footprint that keeps to itself. -/
def Inside (path : List String) : Prop :=
  ∃ top, tree.Anchored top ∧ tree.Contained top ∧ Below tops top ∧
    top <+: path ∧ ".." ∉ path

/-- A path that can be written to. -/
def Opens (path : List String) : Prop :=
  Inside tops tree path ∨ tree.Anchored path ∧
    (∀ target, tree.lookup path ≠ some (.link target)) ∧ Below tops path

/-- A path that can be made or removed. -/
def Names (path : List String) : Prop :=
  Inside tops tree path ∨ tree.Anchored path ∧ Below tops path

/-- A path that can be made a directory. -/
def Makes (path : List String) : Prop :=
  Names tops tree path ∨ tree.Anchored path ∧ Above tops path

/-- A path that can be moved elsewhere. -/
def Moves (path : List String) : Prop :=
  ∃ top, tree.Anchored top ∧ LinkFree tree top ∧ Below tops top ∧
    top <+: path ∧ ".." ∉ path

/-- The changes that stay in the footprint. -/
def Permitted : Call → Prop
  | .change (.createDir path) => Makes tops tree path
  | .change (.createNew path) => Names tops tree path
  | .change (.create path) => Opens tops tree path
  | .change (.openOrCreate path) => Opens tops tree path
  | .change (.append path _) => Opens tops tree path
  | .change (.rename old new) => Moves tops tree old ∧ Names tops tree new
  | .change (.removeFile path) => Names tops tree path
  | .change (.removeDir path) => Names tops tree path
  | .change (.removeDirAll path) => Names tops tree path
  | _ => True

variable {tops tree}

theorem Inside.of_fewer
    {later : FileTree Bytes}
    {path : List String}
    (inside : Inside tops tree path)
    (fewer : FewerLinks tree later) :
    Inside tops later path := by
  obtain ⟨top, anchored, contained, below, start, onward⟩ := inside
  exact ⟨top, fewer.anchored anchored, fewer.contained contained, below,
    start, onward⟩

theorem Opens.of_fewer
    {later : FileTree Bytes}
    {path : List String}
    (opens : Opens tops tree path)
    (fewer : FewerLinks tree later) :
    Opens tops later path := by
  rcases opens with inside | ⟨anchored, unlinked, below⟩
  · exact Or.inl (inside.of_fewer fewer)
  · exact Or.inr ⟨fewer.anchored anchored,
      fun target stands => unlinked target (fewer path target stands), below⟩

theorem Names.of_fewer
    {later : FileTree Bytes}
    {path : List String}
    (names : Names tops tree path)
    (fewer : FewerLinks tree later) :
    Names tops later path := by
  rcases names with inside | ⟨anchored, below⟩
  · exact Or.inl (inside.of_fewer fewer)
  · exact Or.inr ⟨fewer.anchored anchored, below⟩

theorem Makes.of_fewer
    {later : FileTree Bytes}
    {path : List String}
    (makes : Makes tops tree path)
    (fewer : FewerLinks tree later) :
    Makes tops later path := by
  rcases makes with names | ⟨anchored, above⟩
  · exact Or.inl (names.of_fewer fewer)
  · exact Or.inr ⟨fewer.anchored anchored, above⟩

theorem Moves.of_fewer
    {later : FileTree Bytes}
    {path : List String}
    (moves : Moves tops tree path)
    (fewer : FewerLinks tree later) :
    Moves tops later path := by
  obtain ⟨top, anchored, free, below, start, onward⟩ := moves
  exact ⟨top, fewer.anchored anchored, fewer.linkFree free, below, start,
    onward⟩

/-- What stays in the footprint goes on to stay in it. -/
theorem permitted_of_fewer
    {later : FileTree Bytes}
    {op : Call}
    (permitted : Permitted tops tree op)
    (fewer : FewerLinks tree later) :
    Permitted tops later op := by
  cases op with
  | look op => trivial
  | operationId => trivial
  | unixTimestamp => trivial
  | change op =>
      cases op with
      | createDir path => exact Makes.of_fewer permitted fewer
      | createNew path => exact Names.of_fewer permitted fewer
      | create path => exact Opens.of_fewer permitted fewer
      | openOrCreate path => exact Opens.of_fewer permitted fewer
      | append path content => exact Opens.of_fewer permitted fewer
      | syncAll path => trivial
      | syncDirectory path => trivial
      | rename old new =>
          exact ⟨permitted.1.of_fewer fewer, permitted.2.of_fewer fewer⟩
      | removeFile path => exact Names.of_fewer permitted fewer
      | removeDir path => exact Names.of_fewer permitted fewer
      | removeDirAll path => exact Names.of_fewer permitted fewer

theorem Inside.place
    {path place : List String}
    (inside : Inside tops tree path)
    (names : tree.place path = some place) :
    Below tops place := by
  obtain ⟨top, anchored, contained, below, start, onward⟩ := inside
  exact below.mono
    (anchored.place_inside contained start onward names)

theorem Opens.target
    {path place : List String}
    (opens : Opens tops tree path)
    (leads : tree.target 40 path = some place) :
    Below tops place := by
  rcases opens with ⟨top, anchored, contained, below, start, onward⟩ |
      ⟨anchored, unlinked, below⟩
  · exact below.mono (anchored.target_inside contained start onward leads)
  · rw [anchored.target unlinked leads]
    exact below

/-- An anchored path names itself, or nothing. -/
theorem anchored_place_eq
    {path place : List String}
    (anchored : tree.Anchored path)
    (names : tree.place path = some place) :
    place = path := by
  have nonempty : path ≠ [] := by
    rintro rfl
    cases names
  rw [anchored.place nonempty] at names
  split at names
  · cases names
    rfl
  · cases names

theorem Names.place
    {path place : List String}
    (allowed : Names tops tree path)
    (names : tree.place path = some place) :
    Below tops place := by
  rcases allowed with inside | ⟨anchored, below⟩
  · exact inside.place names
  · rw [anchored_place_eq anchored names]
    exact below

theorem Moves.place
    {path place : List String}
    (moves : Moves tops tree path)
    (names : tree.place path = some place) :
    Below tops place ∧ LinkFree tree place := by
  obtain ⟨top, anchored, free, below, start, onward⟩ := moves
  have deeper := anchored.place_inside free.contained start onward names
  exact ⟨below.mono deeper, free.below deeper⟩

/-- A permitted change reaches the footprint only, but for directories above
it. -/
theorem below_of_reaches
    {op : Change}
    {place : List String}
    (permitted : Permitted tops tree (.change op))
    (reaches : op.Reaches tree place) :
    Below tops place ∨
      Above tops place ∧ ∃ path, op = .createDir path := by
  cases op with
  | createDir path =>
      rcases permitted with names | ⟨anchored, above⟩
      · exact Or.inl (names.place reaches)
      · right
        rw [anchored_place_eq anchored reaches]
        exact ⟨above, path, rfl⟩
  | createNew path => exact Or.inl (Names.place permitted reaches)
  | create path => exact Or.inl (Opens.target permitted reaches)
  | openOrCreate path => exact Or.inl (Opens.target permitted reaches)
  | append path content => exact Or.inl (Opens.target permitted reaches)
  | syncAll path => exact absurd reaches id
  | syncDirectory path => exact absurd reaches id
  | rename old new =>
      rcases reaches with namesOld | namesNew
      · exact Or.inl (permitted.1.place namesOld).1
      · exact Or.inl (permitted.2.place namesNew)
  | removeFile path => exact Or.inl (Names.place permitted reaches)
  | removeDir path => exact Or.inl (Names.place permitted reaches)
  | removeDirAll path => exact Or.inl (Names.place permitted reaches)

end paths

/-! ## Steps -/

/-- A change that reaches the footprint only stays in it. -/
theorem Turned.within
    {tops : List String → Prop}
    {before after : FileTree Bytes}
    {op : Change}
    (turned : Turned before after op)
    (reached : ∀ place, op.Reaches before place → Below tops place ∨
      Above tops place ∧ ∃ path, op = .createDir path) :
    Within tops before after := by
  intro path outside
  cases turned with
  | same same =>
      rw [same]
      exact Or.inl rfl
  | directory names absent looked =>
      rw [looked]
      split
      · next same =>
          subst same
          rcases reached _ names with below | ⟨above, _⟩
          · exact absurd below outside
          · exact Or.inr ⟨above, absent, rfl⟩
      · exact Or.inl rfl
  | file unlike reaches placed =>
      left
      rw [lookup_placeFile placed, if_neg]
      rintro rfl
      rcases reached _ reaches with below | ⟨_, made, same⟩
      · exact outside below
      · exact unlike made same
  | removed unlike reaches looked =>
      left
      rcases looked path with same | ⟨start, _⟩
      · exact same
      · rcases reached _ reaches with below | ⟨_, made, same⟩
        · exact absurd (below.mono start) outside
        · exact absurd same (unlike made)
  | moved namesOld namesNew moved =>
      left
      apply lookup_move_of_apart moved
      · intro start
        rcases reached _ (Or.inl namesOld) with below | ⟨_, _, same⟩
        · exact outside (below.mono start)
        · cases same
      · intro start
        rcases reached _ (Or.inr namesNew) with below | ⟨_, _, same⟩
        · exact outside (below.mono start)
        · cases same

/-- A change makes no link, when it moves none. -/
theorem Turned.fewerLinks
    {before after : FileTree Bytes}
    {op : Change}
    (turned : Turned before after op)
    (free : ∀ old new place, op = .rename old new →
      before.place old = some place → LinkFree before place) :
    FewerLinks before after := by
  intro path target stands
  rcases turned.link stands with same |
      ⟨old, new, oldPlace, _, rest, renames, namesOld, _, _, linked⟩
  · exact same
  · exact absurd linked
      (free old new oldPlace renames namesOld _ _ (List.prefix_append ..))

/-- What an operation keeps while it stays in its footprint. -/
structure Kept (tops : List String → Prop) (before : FileTree Bytes)
    (now : Volume) : Prop where
  within : Within tops before now.tree
  fewer : FewerLinks before now.tree

theorem Kept.refl (tops : List String → Prop) (volume : Volume) :
    Kept tops volume.tree volume :=
  ⟨.refl tops volume.tree, .refl volume.tree⟩

theorem Kept.trans
    {tops : List String → Prop}
    {before : FileTree Bytes}
    {middle after : Volume}
    (earlier : Kept tops before middle)
    (later : Kept tops middle.tree after) :
    Kept tops before after :=
  ⟨earlier.within.trans later.within, earlier.fewer.trans later.fewer⟩

/-- A permitted call stays in the footprint and makes no link. -/
theorem kept_of_permitted
    {tops : List String → Prop}
    {op : Call}
    {before after : Volume}
    {reply : op.Reply}
    (permitted : Permitted tops before.tree op)
    (executed : exec op before reply after) :
    Kept tops before.tree after := by
  cases op with
  | look op =>
      rw [executed.1]
      exact .refl ..
  | operationId =>
      rw [show after = before from executed]
      exact .refl ..
  | unixTimestamp =>
      rw [show after = before from executed]
      exact .refl ..
  | change op =>
      have turned := turned_of_exec executed
      refine ⟨turned.within fun place => below_of_reaches permitted,
        turned.fewerLinks ?_⟩
      rintro old new place rfl names
      exact (permitted.1.place names).2

/-- A program that issues permitted calls only, from here on. -/
abbrev Stays {α : Type} (tops : List String → Prop) (tree : FileTree Bytes)
    (program : Program interface α) : Prop :=
  Only (Permitted tops tree) program

theorem Stays.of_fewer
    {α : Type}
    {tops : List String → Prop}
    {tree later : FileTree Bytes}
    {program : Program interface α}
    (stays : Stays tops tree program)
    (fewer : FewerLinks tree later) :
    Stays tops later program :=
  stays.mono fun _ permitted => permitted_of_fewer permitted fewer

/-- Wherever it is cut off, it has stayed in the footprint. -/
theorem Stays.guards
    {α : Type}
    {tops : List String → Prop}
    {program : Program interface α}
    {start : Volume}
    (stays : Stays tops start.tree program) :
    Guards exec (Kept tops start.tree) program (fun _ _ => True) start :=
  Only.guards (fun _ _ _ _ permitted executed kept =>
    kept.trans (kept_of_permitted
      (permitted_of_fewer permitted kept.fewer) executed))
    stays (.refl ..)

end FileSystem
end ModelKeep
