import ModelKeep.Staging.Sequential

/-!
# Preserving and recovering alone

Removal empties a directory and takes it away, preserving removes a directory
or hands it to the next acquisition, and recovery touches no active directory
but to take it away or to abandon it.
-/

namespace ModelKeep
namespace Staging

open Concurrency Program

variable {ε α β : Type} {before after : World}

/-! ## Removal -/

/-- Everything is as it was, but this name is gone. -/
def Removed (before after : World) (name : EntryName) : Prop :=
  after.clock = before.clock ∧
    ∀ other, after.area.entry other =
      if other = name then none else before.area.entry other

/-- An open directory is found under its name. -/
theorem nameOf_eq
    {area : TemporaryArea}
    {name : EntryName}
    {found : AreaEntry}
    (stands : area.entry name = some found) :
    nameOf area found.inode = some name := by
  unfold nameOf
  cases search : area.names.find? fun name =>
      (area.entry name).any fun other => other.inode = found.inode with
  | none =>
      have member : name ∈ area.names := by
        rw [area.mem_names, stands]
        rfl
      have different := List.find?_eq_none.mp search name member
      rw [stands] at different
      simp at different
  | some other =>
      have same := List.find?_some search
      cases standsToo : area.entry other with
      | none => simp [standsToo] at same
      | some foundToo =>
          simp only [standsToo, Option.any_some, decide_eq_true_eq] at same
          rw [area.distinct other name foundToo found standsToo stands same]

/-- What is left in a directory without several of its pieces. -/
def withoutAll (dir : StagingDir) (parts : List StagingDir.Part) :
    StagingDir :=
  parts.foldl StagingDir.without dir

theorem runs_unlink
    {name : EntryName}
    {found : AreaEntry}
    {part : StagingDir.Part}
    {reply : Except ArchiveError Unit}
    (stands : before.area.entry name = some found)
    (run : (perform (.unlink found.inode part)).Runs Effect before reply
      after) :
    reply = .ok () ∧
      after = before.change name fun dir => dir.without part := by
  have issued : respond (.unlink found.inode part) before = (reply, after) :=
    runs_perform.mp run
  unfold respond at issued
  simp only [nameOf_eq stands] at issued
  cases issued
  exact ⟨rfl, rfl⟩

theorem returns_unlinkParts
    {name : EntryName}
    {found : AreaEntry}
    {parts : List StagingDir.Part}
    {outcome : Except ArchiveError Unit}
    (stands : before.area.entry name = some found)
    (run : Returns Effect (unlinkParts found.inode parts) before outcome
      after) :
    outcome = .ok () ∧ Replaced before after name name
      { found with dir := withoutAll found.dir parts } := by
  induction parts generalizing before found with
  | nil =>
      obtain ⟨rfl, rfl⟩ := returns_check.mp run
      exact ⟨rfl, Replaced.refl stands⟩
  | cons part rest inductionHypothesis =>
      unfold unlinkParts at run
      have unlinks : ∀ reply later,
          Returns Effect (attempt (perform (.unlink found.inode part))) before
            reply later → reply = .ok () ∧
          later = before.change name fun dir => dir.without part :=
        fun _ _ run => runs_unlink stands run
      rcases returns_bind.mp run with
        ⟨error, rfl, failed⟩ | ⟨⟨⟩, middle, unlinked, remaining⟩
      · cases (unlinks _ _ failed).1
      obtain ⟨_, rfl⟩ := unlinks _ _ unlinked
      obtain ⟨done, replaced⟩ := inductionHypothesis
        (entry_change_self stands fun dir => dir.without part) remaining
      exact ⟨done, ((Replaced.refl stands).change _).trans replaced⟩

/-- A piece that was taken out stays out. -/
theorem isBare_withoutAll
    {parts : List StagingDir.Part}
    (complete : ∀ part, part ∈ parts)
    (dir : StagingDir) :
    (withoutAll dir parts).isBare = true := by
  have taken : ∀ (parts : List StagingDir.Part) (dir : StagingDir),
      (.lease ∈ parts ∨ dir.lease = .absent →
        (withoutAll dir parts).lease = .absent) ∧
      (.identity ∈ parts ∨ dir.identity = .missing →
        (withoutAll dir parts).identity = .missing) ∧
      (.upstreamFiles ∈ parts ∨ dir.upstreamFiles = .missing →
        (withoutAll dir parts).upstreamFiles = .missing) ∧
      (.payload ∈ parts ∨ dir.payload = .empty →
        (withoutAll dir parts).payload = .empty) := by
    intro parts
    induction parts with
    | nil => simp [withoutAll]
    | cons part rest inductionHypothesis =>
        intro dir
        have later := inductionHypothesis (dir.without part)
        cases part <;>
          simp_all [withoutAll, StagingDir.without]
  obtain ⟨lease, identity, upstreamFiles, payload⟩ := taken parts dir
  unfold StagingDir.isBare
  rw [lease (Or.inl (complete _)), identity (Or.inl (complete _)),
    upstreamFiles (Or.inl (complete _)), payload (Or.inl (complete _))]
  rfl

theorem returns_removeDirAll
    {name : EntryName}
    {found : AreaEntry}
    {outcome : Except ArchiveError Unit}
    (stands : before.area.entry name = some found)
    (run : Returns Effect (removeDirAll name) before outcome after) :
    outcome = .ok () ∧ Removed before after name := by
  have opens : ∀ answer later,
      Returns Effect (attempt (perform (.openDir name))) before answer later ↔
        answer = .ok found.inode ∧ later = before := by
    intro answer later
    rw [returns_attempt, runs_perform]
    refine within_view.trans ?_
    rw [told_some stands]
  unfold removeDirAll at run
  rw [returns_bind_of opens] at run
  rcases returns_bind.mp run with
    ⟨error, rfl, failed⟩ | ⟨parts, middle, listed, remaining⟩
  · obtain ⟨_, parts, same, _⟩ := runs_perform.mp (returns_attempt.mp failed)
    cases same
  obtain ⟨rfl, _, same, complete⟩ :=
    runs_perform.mp (returns_attempt.mp listed)
  cases same
  clear run listed
  rcases returns_bind.mp remaining with
    ⟨error, rfl, failed⟩ | ⟨⟨⟩, emptied, unlinked, last⟩
  · cases (returns_unlinkParts stands failed).1
  have replaced := (returns_unlinkParts stands unlinked).2
  have issued : emptied.within name _ = (outcome, after) :=
    runs_perform.mp (returns_attempt.mp last)
  rw [within_some replaced.entry_new] at issued
  simp only [isBare_withoutAll complete, if_true] at issued
  cases issued
  refine ⟨rfl, replaced.clock, ?_⟩
  intro other
  change (if other = name then none else emptied.area.entry other) = _
  rw [replaced.2]
  by_cases same : other = name
  · rw [if_pos same, if_pos same]
  · rw [if_neg same, if_neg same, if_neg same]

/-- What is not there stays away. -/
theorem returns_removeDirAll_absent
    {name : EntryName}
    {outcome : Except ArchiveError Unit}
    (absent : before.area.entry name = none)
    (run : Returns Effect (removeDirAll name) before outcome after) :
    after = before := by
  have opens : ∀ answer later,
      Returns Effect (attempt (perform (.openDir name))) before answer later →
        answer = .error (.io .notFound) ∧ later = before := by
    intro answer later issued
    rw [returns_attempt, runs_perform] at issued
    obtain ⟨told, same⟩ := within_view.mp issued
    rw [told_none absent] at told
    exact ⟨told, same⟩
  unfold removeDirAll at run
  rcases returns_bind.mp run with
    ⟨_, _, failed⟩ | ⟨_, _, opened, _⟩
  · exact (opens _ _ failed).2
  · cases (opens _ _ opened).1

/-! ## Preserving, recording and recovering -/

/-- How preserving ends. -/
inductive Preserves (before : World) (name : EntryName) :
    Except ArchiveError Bool → World → Prop
  | unidentified
      {error : ArchiveError}
      (unread : before.identity name = .error error) :
      Preserves before name (.error error) before
  | discarded
      {metadata : FetchStagingMetadata}
      {after : World}
      (identity : before.identity name = .ok metadata)
      (unresolved : metadata.resolvedCommit = none)
      (removed : Removed before after name) :
      Preserves before name (.ok false) after
  | kept
      {metadata : FetchStagingMetadata}
      {found : AreaEntry}
      {id commit : String}
      {after : World}
      (identity : before.identity name = .ok metadata)
      (resolved : metadata.resolvedCommit = some commit)
      (stands : before.area.entry name = some found)
      (unspent : id ∉ before.area.spent)
      (replaced : Replaced before after name (.abandoned id)
        { found with dir := { found.dir with lease := .expires 0 } }) :
      Preserves before name (.ok true) after

theorem returns_preserve
    {name : EntryName}
    {outcome : Except ArchiveError Bool}
    (run : Returns Effect (preserveFetchStaging name) before outcome after) :
    Preserves before name outcome after := by
  unfold preserveFetchStaging at run
  rcases returns_bind.mp run with
    ⟨error, rfl, failed⟩ | ⟨metadata, middle, read, remaining⟩
  · obtain ⟨unread, rfl⟩ := (returns_readMetadata name _ _).mp failed
    exact Preserves.unidentified unread.symm
  obtain ⟨identity, rfl⟩ := (returns_readMetadata name _ _).mp read
  clear run read
  obtain ⟨found, stands, _⟩ := identity_eq_ok.mp identity.symm
  split at remaining
  · next unresolved =>
      rcases returns_bind.mp remaining with
        ⟨error, rfl, failed⟩ | ⟨⟨⟩, emptied, removes, last⟩
      · cases (returns_removeDirAll stands failed).1
      obtain ⟨rfl, rfl⟩ := returns_check.mp last
      exact Preserves.discarded identity.symm unresolved
        (returns_removeDirAll stands removes).2
  · next resolved =>
      obtain ⟨commit, resolved⟩ := Option.ne_none_iff_exists'.mp resolved
      obtain ⟨id, unspent, remaining⟩ := returns_operationId.mp remaining
      have standsDrawn : (middle.draw id).area.entry name = some found :=
        stands
      have renames : ∀ reply later,
          Returns Effect (attempt (perform (.rename name (.abandoned id))))
            (middle.draw id) reply later → _ := fun _ _ renames =>
        runs_rename standsDrawn
          (TemporaryArea.free_of_drawn unspent rfl) renames
      rcases returns_bind.mp remaining with
        ⟨error, rfl, failed⟩ | ⟨⟨⟩, moved, renamed, last⟩
      · cases (renames _ _ failed).1
      have replaced := (renames _ _ renamed).2
      rw [returns_bind_of
          (returns_writeLeaseWithExpiry replaced.entry_new _),
        returns_bind_of returns_sync] at last
      obtain ⟨rfl, rfl⟩ := returns_check.mp last
      exact Preserves.kept identity.symm resolved stands unspent
        (replaced.change _)

/-- Recording a commit changes the commit an identity records, or nothing. -/
theorem returns_record
    {name : EntryName}
    {request : StagingRequest}
    {commit : String}
    {outcome : Except ArchiveError Unit}
    (run : Returns Effect (recordFetchResolvedCommit name request commit) before
      outcome after) :
    after = before ∨ ∃ metadata, before.identity name = .ok metadata ∧
      after = before.change name fun dir => { dir with
        identity := .decoded { metadata with resolvedCommit := some commit }
        } := by
  unfold recordFetchResolvedCommit at run
  rcases returns_bind.mp run with
    ⟨error, rfl, _, rfl⟩ | ⟨valid, middle, ⟨_, rfl⟩, remaining⟩
  · exact Or.inl rfl
  clear run
  rcases returns_bind.mp remaining with
    ⟨error, rfl, failed⟩ | ⟨metadata, later, read, last⟩
  · obtain ⟨_, rfl⟩ := (returns_readMetadata name _ _).mp failed
    exact Or.inl rfl
  obtain ⟨identity, rfl⟩ := (returns_readMetadata name _ _).mp read
  obtain ⟨found, stands, _⟩ := identity_eq_ok.mp identity.symm
  split at last
  · exact Or.inl (returns_check.mp last).2
  · split at last
    · exact Or.inl (returns_check.mp last).2
    · exact Or.inr ⟨metadata, identity.symm,
        ((returns_writeMetadata stands _ _ _).mp last).2⟩

/-- Every directory holds what one held before, and one that is not abandoned
has kept its name. -/
def Receded (before after : World) : Prop :=
  after.clock = before.clock ∧
    ∀ name found, after.area.entry name = some found →
      before.area.entry name = some found ∨
        (∃ id, name = .abandoned id) ∧
          ∃ old, before.area.entry old = some found

theorem Receded.refl : Receded before before :=
  ⟨rfl, fun _ _ stands => Or.inl stands⟩

theorem Receded.trans
    {middle : World}
    (first : Receded before middle)
    (second : Receded middle after) :
    Receded before after := by
  refine ⟨second.1.trans first.1, ?_⟩
  intro name found stands
  rcases second.2 name found stands with
    standsMiddle | ⟨abandoned, old, standsMiddle⟩
  · exact first.2 name found standsMiddle
  · refine Or.inr ⟨abandoned, ?_⟩
    rcases first.2 old found standsMiddle with
      standsBefore | ⟨_, older, standsBefore⟩
    · exact ⟨old, standsBefore⟩
    · exact ⟨older, standsBefore⟩

theorem Removed.receded
    {name : EntryName}
    (removed : Removed before after name) :
    Receded before after := by
  refine ⟨removed.1, ?_⟩
  intro other found stands
  rw [removed.2] at stands
  split at stands
  · cases stands
  · exact Or.inl stands

theorem Replaced.receded
    {old : EntryName}
    {id : String}
    {found : AreaEntry}
    (replaced : Replaced before after old (.abandoned id) found)
    (stood : before.area.entry old = some found) :
    Receded before after := by
  refine ⟨replaced.1, ?_⟩
  intro other foundToo stands
  rw [replaced.2] at stands
  split at stands
  · next same =>
      cases stands
      exact Or.inr ⟨⟨id, same⟩, old, stood⟩
  · split at stands
    · cases stands
    · exact Or.inl stands

theorem returns_discard
    {name : EntryName}
    {found : AreaEntry}
    {outcome : Except SkippedStagingEntry Bool}
    (stands : before.area.entry name = some found)
    (run : Returns Effect (do
      during .discard (removeDirAll name)
      check (.ok true)) before outcome after) :
    Receded before after := by
  rcases returns_bind.mp run with
    ⟨error, rfl, failed⟩ | ⟨⟨⟩, middle, removes, last⟩
  · obtain ⟨answer, same, run⟩ := returns_during.mp failed
    obtain ⟨rfl, removed⟩ := returns_removeDirAll stands run
    exact removed.receded
  · obtain ⟨answer, same, run⟩ := returns_during.mp removes
    obtain ⟨rfl, rfl⟩ := returns_check.mp last
    exact (returns_removeDirAll stands run).2.receded

theorem returns_reclaim
    {name : EntryName}
    {found : AreaEntry}
    {identity : Option FetchStagingMetadata}
    {outcome : Except SkippedStagingEntry Bool}
    (stands : before.area.entry name = some found)
    (run : Returns Effect (reclaimEntry name identity) before outcome after) :
    Receded before after := by
  unfold reclaimEntry at run
  dsimp only at run
  split at run
  · obtain ⟨_, rfl⟩ := returns_check.mp run
    exact Receded.refl
  · next id _ =>
      obtain ⟨fresh, unspent, run⟩ := returns_operationId.mp run
      have standsDrawn : (before.draw fresh).area.entry (.active id) =
          some found := stands
      have renames : ∀ reply later,
          Returns Effect (attempt (perform (.rename (.active id)
            (.abandoned fresh)))) (before.draw fresh) reply later → _ :=
        fun _ _ renames => runs_rename standsDrawn
          (TemporaryArea.free_of_drawn unspent rfl) renames
      rcases returns_bind.mp run with
        ⟨error, rfl, failed⟩ | ⟨⟨⟩, middle, renamed, remaining⟩
      · obtain ⟨answer, same, run⟩ := returns_during.mp failed
        exact (renames _ _ run).2.receded stands
      obtain ⟨answer, same, renamed⟩ := returns_during.mp renamed
      have receded := (renames _ _ renamed).2.receded stands
      rcases returns_bind.mp remaining with
        ⟨error, rfl, failed⟩ | ⟨⟨⟩, later, synced, last⟩
      · obtain ⟨answer, same, run⟩ := returns_during.mp failed
        obtain ⟨_, rfl⟩ := (returns_sync _ _).mp run
        exact receded
      · obtain ⟨answer, same, run⟩ := returns_during.mp synced
        obtain ⟨_, rfl⟩ := (returns_sync _ _).mp run
        obtain ⟨_, rfl⟩ := returns_check.mp last
        exact receded
  · exact returns_discard stands run

/-- Recovery of one entry leaves every active directory alone or takes it
away. -/
theorem returns_recoverStagingEntry
    {name : EntryName}
    {isDirectory : Bool}
    {outcome : Except SkippedStagingEntry Bool}
    (run : Returns Effect (recoverStagingEntry name isDirectory) before outcome
      after) :
    Receded before after := by
  unfold recoverStagingEntry at run
  split at run
  · obtain ⟨_, rfl⟩ := returns_check.mp run
    exact Receded.refl
  obtain ⟨answer, middle, read, run⟩ := returns_always_bind.mp run
  have issued : before.within name (fun found =>
      (found.dir.lease.expiry.map fun expiresAt => (expiresAt, before.clock),
        before.area)) = (answer, middle) := runs_perform.mp read
  obtain ⟨told, rfl⟩ := within_view.mp issued
  cases answer with
  | error error =>
      obtain ⟨_, rfl⟩ := returns_check.mp run
      exact Receded.refl
  | ok times =>
      cases stands : middle.area.entry name with
      | none =>
          rw [told_none stands] at told
          cases told
      | some found =>
          dsimp only at run
          split at run
          · obtain ⟨_, rfl⟩ := returns_check.mp run
            exact Receded.refl
          · split at run
            · rw [returns_always_of (runs_readMetadata name)] at run
              exact returns_reclaim stands run
            · exact returns_reclaim stands run

theorem returns_recoverEntries
    {listed : List DirEntry}
    {recovery result : Recovery}
    (run : (recoverEntries listed recovery).Runs Effect before result
      after) :
    Receded before after := by
  induction listed generalizing before recovery with
  | nil =>
      obtain ⟨_, rfl⟩ := run
      exact Receded.refl
  | cons entry rest inductionHypothesis =>
      match entry with
      | .error error => exact inductionHypothesis run
      | .ok (name, isDirectory) =>
          unfold recoverEntries at run
          obtain ⟨outcome, middle, visited, remaining⟩ :=
            (runs_bind ..).mp run
          refine (returns_recoverStagingEntry visited).trans ?_
          match outcome with
          | .ok true => exact inductionHypothesis remaining
          | .ok false => exact inductionHypothesis remaining
          | .error error => exact inductionHypothesis remaining

theorem returns_recoverIncomplete
    {outcome : Except ArchiveError Recovery}
    (run : Returns Effect recoverIncomplete before outcome after) :
    Receded before after := by
  unfold recoverIncomplete at run
  rcases returns_bind.mp run with
    ⟨error, rfl, failed⟩ | ⟨listed, middle, read, remaining⟩
  · obtain ⟨rfl, _⟩ := runs_perform.mp (returns_attempt.mp failed)
    exact Receded.refl
  · obtain ⟨rfl, _⟩ := runs_perform.mp (returns_attempt.mp read)
    obtain ⟨value, _, run⟩ := returns_always.mp remaining
    exact returns_recoverEntries run

end Staging
end ModelKeep
