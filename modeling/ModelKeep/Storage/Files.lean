import Mathlib.Data.Finmap
import ModelKeep.Concurrency.Crash

/-!
# A file system of named files

Files are known by their paths and hold whole values; a value that was not
written to its end is no value.  Renames and links are atomic.  Any operation
may fail when the environment lets it, and a crash loses what was not synced.
Directories are predicates on paths.
-/

namespace Storage

open Concurrency

/-- The kinds of failure a caller tells apart. -/
inductive ErrorKind
  | notFound
  | alreadyExists
  | other
  deriving DecidableEq

/-- A file: its value if it was written whole, and whether it was synced. -/
structure File (γ : Type) where
  content : Option γ
  synced : Bool
  deriving DecidableEq

abbrev Files (π γ : Type) : Type := Finmap fun _ : π => File γ

inductive Op (π δ γ : Type)
  /-- Create a file that must not exist. -/
  | createNew (path : π)
  /-- Create a file or empty it. -/
  | create (path : π)
  | write (path : π) (content : γ)
  | sync (path : π)
  | rename (old new : π)
  | hardLink (old new : π)
  | remove (path : π)
  | isFile (path : π)
  | read (path : π)
  | list (directory : δ)
  | syncDirectory (directory : δ)
  deriving DecidableEq

/-- What each operation answers. -/
abbrev Op.Reply {π δ γ : Type} : Op π δ γ → Type
  | .isFile _ => Bool
  | .read _ => Except ErrorKind (Option γ)
  | .list _ => Except ErrorKind (List π)
  | _ => Except ErrorKind Unit

abbrev interface (π δ γ : Type) : Interface := ⟨Op π δ γ, Op.Reply⟩

section effects

variable {π δ γ : Type} [DecidableEq π]

/-- A file that was just created. -/
def File.fresh : File γ := ⟨none, false⟩

/-- What an operation does that does not fail.  A listing is left open. -/
def respond : (op : Op π δ γ) → Files π γ → op.Reply × Files π γ
  | .createNew path, files =>
      if path ∈ files then (.error .alreadyExists, files)
      else (.ok (), files.insert path .fresh)
  | .create path, files => (.ok (), files.insert path .fresh)
  | .write path content, files =>
      match files.lookup path with
      | some _ => (.ok (), files.insert path ⟨some content, false⟩)
      | none => (.error .notFound, files)
  | .sync path, files =>
      match files.lookup path with
      | some file => (.ok (), files.insert path { file with synced := true })
      | none => (.error .notFound, files)
  | .rename old new, files =>
      match files.lookup old with
      | some file => (.ok (), (files.erase old).insert new file)
      | none => (.error .notFound, files)
  | .hardLink old new, files =>
      match files.lookup old with
      | some file =>
          if new ∈ files then (.error .alreadyExists, files)
          else (.ok (), files.insert new file)
      | none => (.error .notFound, files)
  | .remove path, files =>
      if path ∈ files then (.ok (), files.erase path)
      else (.error .notFound, files)
  | .isFile path, files => (path ∈ files, files)
  | .read path, files =>
      match files.lookup path with
      | some file => (.ok file.content, files)
      | none => (.error .notFound, files)
  | .list _, files => (.ok [], files)
  | .syncDirectory _, files => (.ok (), files)

/-- What an operation leaves that fails: a write may have got half way. -/
def fail : (op : Op π δ γ) → Files π γ → op.Reply × Files π γ
  | .createNew _, files => (.error .other, files)
  | .create _, files => (.error .other, files)
  | .write path _, files =>
      if path ∈ files then (.error .other, files.insert path .fresh)
      else (.error .other, files)
  | .sync _, files => (.error .other, files)
  | .rename _ _, files => (.error .other, files)
  | .hardLink _ _, files => (.error .other, files)
  | .remove _, files => (.error .other, files)
  | .isFile _, files => (false, files)
  | .read _, files => (.error .other, files)
  | .list _, files => (.error .other, files)
  | .syncDirectory _, files => (.error .other, files)

/-- A listing names what is in the directory once, in any order. -/
def Lists
    (inside : δ → π → Prop)
    (directory : δ)
    (files : Files π γ)
    (paths : List π) :
    Prop :=
  paths.Nodup ∧ ∀ path, path ∈ paths ↔ inside directory path ∧ path ∈ files

/-- What an operation does; `faulty` operations may fail. -/
def Effect
    (inside : δ → π → Prop)
    (faulty : Op π δ γ → Prop) :
    Semantics (interface π δ γ) (Files π γ)
  | .list directory, before, reply, after =>
      (∃ paths, reply = .ok paths ∧ after = before ∧
        Lists inside directory before paths) ∨
      (faulty (.list directory) ∧ reply = .error .other ∧ after = before)
  | op, before, reply, after =>
      (reply, after) = respond op before ∨
        (faulty op ∧ (reply, after) = fail op before)

/-- What a crash leaves: a file that was not synced may have lost its
value. -/
def Crash (before after : Files π γ) : Prop :=
  ∀ path, after.lookup path = before.lookup path ∨
    ∃ file, before.lookup path = some file ∧ file.synced = false ∧
      after.lookup path = some .fresh

/-- The paths whose files an operation may change. -/
def Touches : Op π δ γ → π → Prop
  | .createNew path, place => place = path
  | .create path, place => place = path
  | .write path _, place => place = path
  | .sync path, place => place = path
  | .rename old new, place => place = old ∨ place = new
  | .hardLink _ new, place => place = new
  | .remove path, place => place = path
  | _, _ => False

/-- Whatever an operation does, and whether it fails, it leaves the other
files alone. -/
theorem lookup_of_not_touches
    {inside : δ → π → Prop}
    {faulty : Op π δ γ → Prop}
    {op : Op π δ γ}
    {before after : Files π γ}
    {reply : op.Reply}
    {place : π}
    (effect : Effect inside faulty op before reply after)
    (apart : ¬Touches op place) :
    after.lookup place = before.lookup place := by
  have kept : ∀ {path : π} {file : File γ}, place ≠ path →
      (before.insert path file).lookup place = before.lookup place :=
    fun different => Finmap.lookup_insert_of_ne _ different
  have gone : ∀ {path : π}, place ≠ path →
      (before.erase path).lookup place = before.lookup place :=
    fun different => Finmap.lookup_erase_ne different
  cases op with
  | list directory =>
      rcases effect with ⟨_, _, same, _⟩ | ⟨_, _, same⟩ <;> rw [same]
  | createNew path =>
      rcases effect with same | ⟨_, same⟩
      · rw [respond] at same
        split at same <;> cases same
        · rfl
        · exact kept apart
      · cases same
        rfl
  | create path =>
      rcases effect with same | ⟨_, same⟩
      · cases same
        exact kept apart
      · cases same
        rfl
  | write path content =>
      rcases effect with same | ⟨_, same⟩
      · rw [respond] at same
        split at same <;> cases same
        · exact kept apart
        · rfl
      · rw [fail] at same
        split at same <;> cases same
        · exact kept apart
        · rfl
  | sync path =>
      rcases effect with same | ⟨_, same⟩
      · rw [respond] at same
        split at same <;> cases same
        · exact kept apart
        · rfl
      · cases same
        rfl
  | rename old new =>
      obtain ⟨fromOld, fromNew⟩ := not_or.mp apart
      rcases effect with same | ⟨_, same⟩
      · rw [respond] at same
        split at same <;> cases same
        · rw [Finmap.lookup_insert_of_ne _ fromNew]
          exact gone fromOld
        · rfl
      · cases same
        rfl
  | hardLink old new =>
      rcases effect with same | ⟨_, same⟩
      · rw [respond] at same
        split at same
        · split at same <;> cases same
          · rfl
          · exact kept apart
        · cases same
          rfl
      · cases same
        rfl
  | remove path =>
      rcases effect with same | ⟨_, same⟩
      · rw [respond] at same
        split at same <;> cases same
        · exact gone apart
        · rfl
      · cases same
        rfl
  | isFile path =>
      rcases effect with same | ⟨_, same⟩ <;> cases same <;> rfl
  | read path =>
      rcases effect with same | ⟨_, same⟩
      · rw [respond] at same
        split at same <;> cases same <;> rfl
      · cases same
        rfl
  | syncDirectory directory =>
      rcases effect with same | ⟨_, same⟩ <;> cases same <;> rfl

end effects
end Storage
