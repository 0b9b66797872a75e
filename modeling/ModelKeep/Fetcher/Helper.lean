import ModelKeep.Cancellation
import ModelKeep.Fetcher.Run

/-!
# Who reaps the helper

`run_fetch` with its helper, call by call, while the token of the acquisition
may be cancelled at any time and by anybody.  A helper is a handle on a
process: the thread has it until it hands it to the token and after it took it
back, and whoever has it last kills the process or waits for it.  Killing and
waiting succeed, and a progress callback returns.
-/

namespace ModelKeep
namespace Fetcher

open Concurrency Program

/-! ## Helpers -/

/-- A helper as the operating system knows it. -/
structure Helper where
  killed : Bool
  /-- How often its exit status was collected. -/
  reaps : Nat
  /-- Its output has come to an end. -/
  ended : Bool
  deriving DecidableEq

namespace Helper

def spawned : Helper := ⟨false, 0, false⟩

def kill (helper : Helper) : Helper := { helper with killed := true }

def wait (helper : Helper) : Helper :=
  { helper with reaps := helper.reaps + 1 }

def close (helper : Helper) : Helper := { helper with ended := true }

/-- `terminate_and_reap` -/
def terminateAndReap (helper : Helper) : Helper := helper.kill.wait

@[simp] theorem reaps_kill (helper : Helper) :
    helper.kill.reaps = helper.reaps := rfl

@[simp] theorem reaps_wait (helper : Helper) :
    helper.wait.reaps = helper.reaps + 1 := rfl

@[simp] theorem reaps_close (helper : Helper) :
    helper.close.reaps = helper.reaps := rfl

@[simp] theorem reaps_terminateAndReap (helper : Helper) :
    helper.terminateAndReap.reaps = helper.reaps + 1 := rfl

@[simp] theorem ended_kill (helper : Helper) :
    helper.kill.ended = helper.ended := rfl

@[simp] theorem ended_wait (helper : Helper) :
    helper.wait.ended = helper.ended := rfl

@[simp] theorem ended_close (helper : Helper) : helper.close.ended = true :=
  rfl

@[simp] theorem ended_terminateAndReap (helper : Helper) :
    helper.terminateAndReap.ended = helper.ended := rfl

end Helper

/-! ## The thread -/

/-- Where the acquisition thread stands in `run_fetch`, with its locals. -/
inductive Stage
  | starting
  | spawning
  | spawned (child : Nat)
  | attaching (child : Nat)
  /-- In the loop over the lines, with what is left to do about the last one. -/
  | reading
      (pipe : Nat)
      (doing : Program Staging.interface (Except UpstreamError Read))
  | reclaiming (parsed : Except UpstreamError Read)
  | checking (child : Nat) (parsed : Except UpstreamError Read)
  /-- In `terminate_and_reap`, before the kill and before the wait. -/
  | killing (child : Nat) (error : UpstreamError)
  | reaping (child : Nat) (error : UpstreamError)
  | waiting (child : Nat) (read : Read)
  | finished (outcome : Except UpstreamError Fetched)

/-- The helper that the thread has in a local. -/
def Stage.holds : Stage → Option Nat
  | .spawned child => some child
  | .attaching child => some child
  | .checking child _ => some child
  | .killing child _ => some child
  | .reaping child _ => some child
  | .waiting child _ => some child
  | _ => none

/-- What a fetch and those who cancel it share. -/
structure Scene (σ : Type) where
  token : Cancellation
  stage : Stage
  /-- Every helper that was spawned, by its number. -/
  helpers : List Helper
  /-- What the staging area is part of. -/
  area : σ

namespace Scene

variable {σ : Type}

/-- A call of `cancel`, under the lock of the token. -/
def cancel (scene : Scene σ) : CancelOutcome × Scene σ :=
  (scene.token.cancel.1,
    { scene with
      token := scene.token.cancel.2
      helpers :=
        match scene.token.phase, scene.token.child with
        | .running, some child =>
            scene.helpers.modify child Helper.terminateAndReap
        | _, _ => scene.helpers })

/-- How many have a handle on the helper. -/
def owners (scene : Scene σ) (child : Nat) : Nat :=
  (if scene.stage.holds = some child then 1 else 0) +
    if scene.token.child = some child then 1 else 0

end Scene

/-- Something that happened. -/
inductive Happening
  | cancel (outcome : CancelOutcome)
  /-- The output of a helper came to its end. -/
  | ended (child : Nat)
  | spawned (child : Nat)
  | read (line : Line)
  | reclaimed (child : ReclaimedChild)
  /-- The thread did anything else. -/
  | worked
  deriving DecidableEq

section moves

variable
  {σ : Type}
  (parse : String → Option Json)
  (request : FetchRequest)
  (exec : Semantics Staging.interface σ)

/-- One step of the thread, of a helper or of somebody who cancels. -/
inductive Moves : Scene σ → Happening → Scene σ → Prop
  | cancel {scene : Scene σ} :
      Moves scene (.cancel scene.cancel.1) scene.cancel.2
  | ended {token stage helpers area} {child : Nat} :
      Moves ⟨token, stage, helpers, area⟩ (.ended child)
        ⟨token, stage, helpers.modify child Helper.close, area⟩
  /-- `cancel.is_cancelled()`, before anything is spawned. -/
  | start {token helpers area} :
      Moves ⟨token, .starting, helpers, area⟩ .worked
        ⟨token,
          if token.isCancelled then .finished (.error .cancelled)
          else .spawning,
          helpers, area⟩
  | spawn {token helpers area} :
      Moves ⟨token, .spawning, helpers, area⟩ (.spawned helpers.length)
        ⟨token, .spawned helpers.length, helpers ++ [.spawned], area⟩
  | spawnFailed {token helpers area} {kind : IoErrorKind} :
      Moves ⟨token, .spawning, helpers, area⟩ .worked
        ⟨token, .finished (.error (.io kind)), helpers, area⟩
  /-- `child.stdout.take()` -/
  | takeStdout {token helpers area} {child : Nat} {stdout : Bool} :
      Moves ⟨token, .spawned child, helpers, area⟩ .worked
        ⟨token,
          if stdout then .attaching child
          else .killing child (.invalidOutput .stdoutUnavailable),
          helpers, area⟩
  /-- `cancel.attach(child)`, under the lock of the token. -/
  | attach {token helpers area} {child : Nat} :
      Moves ⟨token, .attaching child, helpers, area⟩ .worked
        (if (token.attach child).1 then
          ⟨(token.attach child).2, .reading child (.done (.ok ⟨none, none⟩)),
            helpers, area⟩
        else
          ⟨(token.attach child).2, .finished (.error .cancelled),
            helpers.modify child Helper.terminateAndReap, area⟩)
  | read {token helpers area} {pipe : Nat} {read : Read} {line : Line} :
      Moves ⟨token, .reading pipe (.done (.ok read)), helpers, area⟩
        (.read line)
        ⟨token, .reading pipe (readLine parse request read line).run, helpers,
          area⟩
  /-- A step on the staging area. -/
  | work {token helpers} {before after : σ} {pipe : Nat}
      {op : Staging.interface.Op} {reply : Staging.interface.Reply op}
      {next : Staging.interface.Reply op →
        Program Staging.interface (Except UpstreamError Read)}
      (issued : exec op before reply after) :
      Moves ⟨token, .reading pipe (.call op next), helpers, before⟩ .worked
        ⟨token, .reading pipe (next reply), helpers, after⟩
  | readAll {token helpers area} {pipe : Nat} {read : Read} {helper : Helper}
      (found : helpers[pipe]? = some helper)
      (ended : helper.ended = true) :
      Moves ⟨token, .reading pipe (.done (.ok read)), helpers, area⟩ .worked
        ⟨token, .reclaiming (.ok read), helpers, area⟩
  | readFailed {token helpers area} {pipe : Nat} {error : UpstreamError} :
      Moves ⟨token, .reading pipe (.done (.error error)), helpers, area⟩
        .worked ⟨token, .reclaiming (.error error), helpers, area⟩
  /-- `cancel.reclaim()`, under the lock of the token. -/
  | reclaim {token helpers area} {parsed : Except UpstreamError Read} :
      Moves ⟨token, .reclaiming parsed, helpers, area⟩
        (.reclaimed token.reclaim.1)
        ⟨token.reclaim.2,
          match token.reclaim.1 with
          | .running child => .checking child parsed
          | .reaped => .finished (.error .cancelled),
          helpers, area⟩
  /-- `cancel.is_cancelled()`, and the match on what was read. -/
  | check {token helpers area} {child : Nat}
      {parsed : Except UpstreamError Read} :
      Moves ⟨token, .checking child parsed, helpers, area⟩ .worked
        ⟨token,
          if token.isCancelled then .killing child .cancelled
          else match parsed with
            | .error error => .killing child error
            | .ok read => .waiting child read,
          helpers, area⟩
  | kill {token helpers area} {child : Nat} {error : UpstreamError} :
      Moves ⟨token, .killing child error, helpers, area⟩ .worked
        ⟨token, .reaping child error, helpers.modify child Helper.kill, area⟩
  | reap {token helpers area} {child : Nat} {error : UpstreamError} :
      Moves ⟨token, .reaping child error, helpers, area⟩ .worked
        ⟨token, .finished (.error error), helpers.modify child Helper.wait,
          area⟩
  | wait {token helpers area} {child : Nat} {read : Read}
      {code : Option Int} :
      Moves ⟨token, .waiting child read, helpers, area⟩ .worked
        ⟨token, .finished (conclude request.resumeCommit read code),
          helpers.modify child Helper.wait, area⟩

/-- Any number of steps, with what happened in them. -/
inductive Course (start : Scene σ) : List Happening → Scene σ → Prop
  | rest : Course start [] start
  | move
      {history : List Happening}
      {happening : Happening}
      {middle final : Scene σ}
      (earlier : Course start history middle)
      (last : Moves parse request exec middle happening final) :
      Course start (history ++ [happening]) final

end moves

/-! ## Whose the helper is -/

/-- The thread has lent its helper to the token. -/
def Stage.lends : Stage → Bool
  | .reading .. => true
  | .reclaiming _ => true
  | _ => false

/-- Every helper has one owner until it is reaped, and none after. -/
structure Kept {σ : Type} (scene : Scene σ) : Prop where
  once : ∀ child helper, scene.helpers[child]? = some helper →
    scene.owners child + helper.reaps = 1
  held : ∀ child, scene.stage.holds = some child →
    child < scene.helpers.length
  lent : ∀ child, scene.token.child = some child →
    scene.stage.lends = true ∧ child < scene.helpers.length

section kept

variable
  {σ : Type}
  {parse : String → Option Json}
  {request : FetchRequest}
  {exec : Semantics Staging.interface σ}
  {before after : Scene σ}
  {token : Cancellation}
  {stage : Stage}
  {helpers : List Helper}
  {area : σ}
  {child other : Nat}
  {helper : Helper}

theorem exists_of_modify
    {change : Helper → Helper}
    (found : (helpers.modify child change)[other]? = some helper) :
    ∃ earlier, helpers[other]? = some earlier ∧
      helper = if child = other then change earlier else earlier := by
  rw [List.getElem?_modify] at found
  obtain ⟨earlier, known, same⟩ := Option.map_eq_some_iff.mp found
  exact ⟨earlier, known, same.symm⟩

/-- A thread that neither takes nor gives a helper keeps the owners. -/
theorem Kept.onward
    (kept : Kept ⟨token, stage, helpers, area⟩)
    {next : Stage}
    {later : σ}
    (holds : next.holds = stage.holds)
    (lends : next.lends = stage.lends) :
    Kept ⟨token, next, helpers, later⟩ := by
  constructor
  · intro child helper found
    simpa only [Scene.owners, holds] using kept.once child helper found
  · intro child held
    exact kept.held child (holds ▸ held)
  · intro child lent
    obtain ⟨lending, known⟩ := kept.lent child lent
    exact ⟨lends.trans lending, known⟩

/-- What happens to a process before it is waited for changes no owner. -/
theorem Kept.change
    (kept : Kept ⟨token, stage, helpers, area⟩)
    {change : Helper → Helper}
    (reaps : ∀ helper, (change helper).reaps = helper.reaps) :
    Kept ⟨token, stage, helpers.modify child change, area⟩ := by
  constructor
  · intro other helper found
    obtain ⟨earlier, known, rfl⟩ := exists_of_modify found
    have := kept.once other earlier known
    split
    · rw [reaps]
      exact this
    · exact this
  · intro other held
    rw [List.length_modify]
    exact kept.held other held
  · intro other lent
    rw [List.length_modify]
    exact kept.lent other lent

/-- One owner less, and one more time reaped. -/
theorem once_reaped
    {owned left : Nat → Nat}
    {change : Helper → Helper}
    (once : ∀ other helper, helpers[other]? = some helper →
      owned other + helper.reaps = 1)
    (given : ∀ other,
      owned other = left other + if child = other then 1 else 0)
    (reaps : ∀ helper, (change helper).reaps = helper.reaps + 1) :
    ∀ other helper, (helpers.modify child change)[other]? = some helper →
      left other + helper.reaps = 1 := by
  intro other helper found
  obtain ⟨earlier, known, rfl⟩ := exists_of_modify found
  have before := once other earlier known
  rw [given] at before
  by_cases same : child = other
  · rw [if_pos same] at before ⊢
    rw [reaps]
    omega
  · rw [if_neg same] at before ⊢
    exact before

/-- The thread waits for the helper that it has, and is done with it. -/
theorem Kept.reaped
    (kept : Kept ⟨token, stage, helpers, area⟩)
    {outcome : Except UpstreamError Fetched}
    {change : Helper → Helper}
    (holds : stage.holds = some child)
    (lends : stage.lends = false)
    (reaps : ∀ helper, (change helper).reaps = helper.reaps + 1) :
    Kept ⟨token, .finished outcome, helpers.modify child change, area⟩ := by
  constructor
  · refine once_reaped kept.once (fun other => ?_) reaps
    simp only [Scene.owners, holds, Option.some.injEq]
    simp only [Stage.holds, reduceCtorEq, if_false]
    omega
  · intro other held
    cases held
  · intro other lent
    have := (kept.lent other lent).1
    rw [lends] at this
    cases this

/-- The token kills and reaps the helper that it has. -/
theorem Kept.stopped
    (kept : Kept ⟨token, stage, helpers, area⟩)
    {phase : CancellationPhase}
    (lent : token.child = some child) :
    Kept ⟨⟨phase, none⟩, stage,
      helpers.modify child Helper.terminateAndReap, area⟩ := by
  constructor
  · refine once_reaped kept.once (fun other => ?_)
      Helper.reaps_terminateAndReap
    simp only [Scene.owners, lent, Option.some.injEq, reduceCtorEq, if_false,
      Nat.add_zero]
  · intro other held
    rw [List.length_modify]
    exact kept.held other held
  · intro other lent
    cases lent

theorem Kept.cancel
    {scene : Scene σ}
    (kept : Kept scene) :
    Kept scene.cancel.2 := by
  obtain ⟨⟨phase, child⟩, stage, helpers, area⟩ := scene
  cases phase with
  | cancelled => exact kept
  | committing => exact kept
  | running =>
      cases child with
      | some child => exact kept.stopped rfl
      | none => exact ⟨kept.once, kept.held, nofun⟩

/-- A freshly spawned helper belongs to the thread. -/
theorem Kept.spawn
    (kept : Kept ⟨token, .spawning, helpers, area⟩) :
    Kept ⟨token, .spawned helpers.length, helpers ++ [.spawned], area⟩ := by
  have unlent : ∀ child, token.child ≠ some child :=
    fun child lent => nomatch (kept.lent child lent).1
  constructor
  · intro child helper found
    simp only [Scene.owners, Stage.holds, unlent child, if_false, Nat.add_zero,
      Option.some.injEq]
    rw [List.getElem?_append] at found
    split at found
    · next below =>
        have once := kept.once child helper found
        simp only [Scene.owners, Stage.holds, unlent child, reduceCtorEq,
          if_false] at once
        rw [if_neg (Nat.ne_of_gt below)]
        exact once
    · next least =>
        obtain ⟨first, same⟩ := List.getElem?_eq_some_iff.mp found
        have last : helpers.length = child := by simp at first; omega
        subst last
        simp at same
        simp [← same, Helper.spawned]
  · intro child held
    cases held
    simp
  · intro child lent
    cases unlent child lent

/-- The token takes the helper, or reaps it if it was cancelled. -/
theorem Kept.attach
    (kept : Kept ⟨token, .attaching child, helpers, area⟩)
    {doing : Program Staging.interface (Except UpstreamError Read)} :
    Kept (if (token.attach child).1 then
        ⟨(token.attach child).2, .reading child doing, helpers, area⟩
      else
        ⟨(token.attach child).2, .finished (.error .cancelled),
          helpers.modify child Helper.terminateAndReap, area⟩) := by
  have unlent : ∀ other, token.child ≠ some other :=
    fun other lent => nomatch (kept.lent other lent).1
  unfold Cancellation.attach
  split
  · exact kept.reaped rfl rfl Helper.reaps_terminateAndReap
  · constructor
    · intro other helper found
      have once := kept.once other helper found
      simp only [Scene.owners, Stage.holds, unlent other, if_false,
        Nat.add_zero] at once
      simpa [Scene.owners, Stage.holds] using once
    · intro other held
      cases held
    · rintro other ⟨⟩
      exact ⟨rfl, kept.held child rfl⟩

/-- The thread takes its helper back, if it is still there. -/
theorem Kept.reclaim
    {parsed : Except UpstreamError Read}
    (kept : Kept ⟨token, .reclaiming parsed, helpers, area⟩) :
    Kept ⟨token.reclaim.2,
      match token.reclaim.1 with
      | .running child => .checking child parsed
      | .reaped => .finished (.error .cancelled),
      helpers, area⟩ := by
  obtain ⟨phase, held⟩ := token
  cases held with
  | none =>
      exact ⟨kept.once, nofun, nofun⟩
  | some child =>
      constructor
      · intro other helper found
        have once := kept.once other helper found
        simp only [Scene.owners, Stage.holds, reduceCtorEq, if_false,
          Nat.zero_add] at once
        simpa [Scene.owners, Stage.holds, Cancellation.reclaim] using once
      · rintro other ⟨⟩
        exact (kept.lent child rfl).2
      · rintro other ⟨⟩

/-- Every step keeps the owners. -/
theorem Kept.move
    {happening : Happening}
    (kept : Kept before)
    (move : Moves parse request exec before happening after) :
    Kept after := by
  cases move with
  | cancel => exact kept.cancel
  | ended => exact kept.change Helper.reaps_close
  | start => split <;> exact kept.onward rfl rfl
  | spawn => exact kept.spawn
  | spawnFailed => exact kept.onward rfl rfl
  | takeStdout => split <;> exact kept.onward rfl rfl
  | attach => exact kept.attach
  | read => exact kept.onward rfl rfl
  | work => exact kept.onward rfl rfl
  | readAll => exact kept.onward rfl rfl
  | readFailed => exact kept.onward rfl rfl
  | reclaim => exact kept.reclaim
  | check =>
      split
      · exact kept.onward rfl rfl
      · split <;> exact kept.onward rfl rfl
  | kill => exact (kept.change Helper.reaps_kill).onward rfl rfl
  | reap => exact kept.reaped rfl rfl Helper.reaps_wait
  | wait => exact kept.reaped rfl rfl Helper.reaps_wait

theorem Course.kept
    {start final : Scene σ}
    {history : List Happening}
    (kept : Kept start)
    (course : Course parse request exec start history final) :
    Kept final := by
  induction course with
  | rest => exact kept
  | move earlier last inductionHypothesis => exact inductionHypothesis.move last

/-- In the end every helper was reaped once. -/
theorem Kept.reaps_of_finished
    {outcome : Except UpstreamError Fetched}
    (kept : Kept before)
    (finished : before.stage = .finished outcome)
    (known : helper ∈ before.helpers) :
    helper.reaps = 1 := by
  obtain ⟨child, found⟩ := List.mem_iff_getElem?.mp known
  have once := kept.once child helper found
  have unlent : before.token.child ≠ some child := by
    intro lent
    have := (kept.lent child lent).1
    rw [finished] at this
    cases this
  simpa [Scene.owners, finished, Stage.holds, unlent] using once

end kept

end Fetcher
end ModelKeep
