import ModelKeep.Fetcher.Helper

/-!
# What a cancellation does to a fetch

A cancellation finds the helper unborn, with the thread or with the token, and
each of these is told by where the thread stands.  Whichever it is, before the
output has ended it decides the fetch.
-/

namespace ModelKeep
namespace Fetcher

open Concurrency Program

/-! ## What a cancellation prevents -/

/-- The helper whose output the thread reads, or that it has. -/
def Stage.about : Stage → Option Nat
  | .reading pipe _ => some pipe
  | stage => stage.holds

/-- The whole output was read, and none of it was at fault. -/
def Stage.complete : Stage → Bool
  | .reclaiming (.ok _) => true
  | .checking _ (.ok _) => true
  | .waiting .. => true
  | .finished (.ok _) => true
  | _ => false

/-- The thread took its helper back. -/
def Stage.reclaimed : Stage → Bool
  | .checking .. => true
  | .waiting .. => true
  | .finished (.ok _) => true
  | _ => false

namespace Scene

variable {σ : Type}

/-- The output of the helper has ended. -/
def Ended (scene : Scene σ) (child : Nat) : Prop :=
  ∃ helper, scene.helpers[child]? = some helper ∧ helper.ended = true

/-- The helper was killed and is reaped. -/
def Stopped (scene : Scene σ) (child : Nat) : Prop :=
  ∃ helper, scene.helpers[child]? = some helper ∧ helper.killed = true ∧
    helper.reaps = 1

end Scene

/-- A fetch is about to begin, with a token that has no helper; those of
earlier fetches are reaped. -/
structure Fresh {σ : Type} (scene : Scene σ) : Prop where
  stage : scene.stage = .starting
  child : scene.token.child = none
  reaped : ∀ helper ∈ scene.helpers, helper.reaps = 1

/-- The fetch has to do with one helper. -/
structure Its {σ : Type} (child : Nat) (scene : Scene σ) : Prop where
  early : scene.stage = .starting ∨ scene.stage = .spawning →
    scene.helpers.length = child
  about : ∀ other, scene.stage.about = some other → other = child
  lent : ∀ other, scene.token.child = some other → other = child
  lending : scene.stage.lends = true →
    scene.token.child = some child ∨ scene.token.phase = .cancelled
  known : scene.stage.about.isSome = true → child < scene.helpers.length
  complete : scene.stage.complete = true → scene.Ended child

/-- A fetch that was cancelled and cannot succeed any more. -/
structure Doomed {σ : Type} (scene : Scene σ) : Prop where
  phase : scene.token.phase = .cancelled
  lost : scene.stage.lends = true → scene.token.child = none
  waits : ∀ child read, scene.stage ≠ .waiting child read
  fails : ∀ fetched, scene.stage ≠ .finished (.ok fetched)

/-- A fetch that was cancelled and reads nothing any more. -/
structure Sealed {σ : Type} (scene : Scene σ) : Prop where
  phase : scene.token.phase = .cancelled
  apart : ∀ pipe doing, scene.stage ≠ .reading pipe doing

section cancelled

variable
  {σ : Type}
  {parse : String → Option Json}
  {request : FetchRequest}
  {exec : Semantics Staging.interface σ}
  {start before after final : Scene σ}
  {history : List Happening}
  {happening : Happening}
  {child : Nat}

theorem Fresh.kept (fresh : Fresh start) : Kept start := by
  constructor
  · intro child helper found
    have reaped := fresh.reaped helper (List.mem_of_getElem? found)
    simp [Scene.owners, fresh.stage, fresh.child, Stage.holds, reaped]
  · rw [fresh.stage]
    rintro _ ⟨⟩
  · rw [fresh.child]
    rintro _ ⟨⟩

theorem Fresh.its (fresh : Fresh start) : Its start.helpers.length start := by
  constructor
  · exact fun _ => rfl
  · rw [fresh.stage]
    nofun
  · rw [fresh.child]
    nofun
  · rw [fresh.stage]
    nofun
  · rw [fresh.stage]
    nofun
  · rw [fresh.stage]
    nofun

/-- Nothing takes the end of an output back. -/
theorem Scene.Ended.modify
    {token : Cancellation}
    {stage next : Stage}
    {helpers : List Helper}
    {area : σ}
    {other : Nat}
    {change : Helper → Helper}
    (ended : Scene.Ended ⟨token, stage, helpers, area⟩ child)
    (keeps : ∀ helper : Helper, helper.ended = true →
      (change helper).ended = true) :
    Scene.Ended ⟨token, next, helpers.modify other change, area⟩ child := by
  obtain ⟨helper, found, ended⟩ := ended
  refine ⟨if other = child then change helper else helper, ?_, ?_⟩
  · exact (List.getElem?_modify ..).trans (congrArg _ found)
  · split
    · exact keeps helper ended
    · exact ended

section its

variable
  {token later : Cancellation}
  {stage next : Stage}
  {helpers : List Helper}
  {area areaLater : σ}
  {other : Nat}

/-- The thread goes on with the helper of its fetch. -/
theorem Its.onward
    (its : Its child ⟨token, stage, helpers, area⟩)
    (early : next = .starting ∨ next = .spawning →
      stage = .starting ∨ stage = .spawning)
    (about : ∀ other, next.about = some other → stage.about = some other)
    (lends : next.lends = true → stage.lends = true)
    (complete : next.complete = true →
      Scene.Ended ⟨token, stage, helpers, area⟩ child) :
    Its child ⟨token, next, helpers, areaLater⟩ where
  early stands := its.early (early stands)
  about other stands := its.about other (about other stands)
  lent := its.lent
  lending stands := its.lending (lends stands)
  known stands := by
    obtain ⟨other, stands⟩ := Option.isSome_iff_exists.mp stands
    exact its.known (Option.isSome_iff_exists.mpr ⟨other, about other stands⟩)
  complete := complete

/-- Whatever happens to a process, the fetch stays with its helper. -/
theorem Its.change
    (its : Its child ⟨token, stage, helpers, area⟩)
    {change : Helper → Helper}
    (keeps : ∀ helper : Helper, helper.ended = true →
      (change helper).ended = true) :
    Its child ⟨token, stage, helpers.modify other change, area⟩ where
  early stands := (List.length_modify ..).trans (its.early stands)
  about := its.about
  lent := its.lent
  lending := its.lending
  known stands := by
    rw [List.length_modify]
    exact its.known stands
  complete stands := (its.complete stands).modify keeps

theorem Its.cancel
    (its : Its child before) :
    Its child before.cancel.2 := by
  obtain ⟨⟨phase, held⟩, stage, helpers, area⟩ := before
  have emptied : Its child ⟨⟨.cancelled, none⟩, stage, helpers, area⟩ :=
    ⟨its.early, its.about, nofun, fun _ => Or.inr rfl, its.known,
      its.complete⟩
  cases phase with
  | cancelled => exact its
  | committing => exact its
  | running =>
      cases held with
      | some held => exact emptied.change fun _ => id
      | none => exact emptied

theorem Its.spawn
    (its : Its child ⟨token, .spawning, helpers, area⟩) :
    Its child ⟨token, .spawned helpers.length, helpers ++ [.spawned], area⟩ := by
  have last : helpers.length = child := its.early (Or.inr rfl)
  constructor
  · rintro (same | same) <;> cases same
  · rintro other ⟨⟩
    exact last
  · exact its.lent
  · nofun
  · intro _
    simp [last]
  · nofun

theorem Its.attach
    {doing : Program Staging.interface (Except UpstreamError Read)}
    (its : Its child ⟨token, .attaching other, helpers, area⟩) :
    Its child (if (token.attach other).1 then
        ⟨(token.attach other).2, .reading other doing, helpers, area⟩
      else
        ⟨(token.attach other).2, .finished (.error .cancelled),
          helpers.modify other Helper.terminateAndReap, area⟩) := by
  obtain rfl := its.about other rfl
  unfold Cancellation.attach
  split
  · refine (its.onward ?_ ?_ ?_ ?_).change fun _ => id
    · simp
    · nofun
    · nofun
    · nofun
  · constructor
    · rintro (same | same) <;> cases same
    · exact its.about
    · rintro _ ⟨⟩
      rfl
    · exact fun _ => Or.inl rfl
    · exact its.known
    · nofun

theorem Its.reclaim
    {parsed : Except UpstreamError Read}
    (its : Its child ⟨token, .reclaiming parsed, helpers, area⟩)
    (kept : Kept ⟨token, .reclaiming parsed, helpers, area⟩) :
    Its child ⟨token.reclaim.2,
      match token.reclaim.1 with
      | .running child => .checking child parsed
      | .reaped => .finished (.error .cancelled),
      helpers, area⟩ := by
  obtain ⟨phase, held⟩ := token
  cases held with
  | none =>
      constructor
      · rintro (same | same) <;> cases same
      all_goals nofun
  | some held =>
      obtain rfl := its.lent held rfl
      constructor
      · rintro (same | same) <;> cases same
      · rintro _ ⟨⟩
        rfl
      · nofun
      · nofun
      · exact fun _ => (kept.lent held rfl).2
      · intro stands
        cases parsed with
        | error error => cases stands
        | ok read => exact its.complete rfl

end its

/-- Every step keeps to the one helper. -/
theorem Its.move
    (its : Its child before)
    (kept : Kept before)
    (move : Moves parse request exec before happening after) :
    Its child after := by
  cases move with
  | cancel => exact its.cancel
  | ended => exact its.change fun _ _ => rfl
  | start =>
      split
      · exact its.onward (by simp) nofun nofun nofun
      · exact its.onward (by simp) nofun nofun nofun
  | spawn => exact its.spawn
  | spawnFailed => exact its.onward (by simp) nofun nofun nofun
  | takeStdout =>
      split
      · exact its.onward (by simp) (fun _ => id) nofun nofun
      · exact its.onward (by simp) (fun _ => id) nofun nofun
  | attach => exact its.attach
  | read => exact its.onward (by simp) (fun _ => id) (fun _ => rfl) nofun
  | work => exact its.onward (by simp) (fun _ => id) (fun _ => rfl) nofun
  | readAll found ended =>
      obtain rfl := its.about _ rfl
      exact its.onward (by simp) nofun (fun _ => rfl)
        fun _ => ⟨_, found, ended⟩
  | readFailed => exact its.onward (by simp) nofun (fun _ => rfl) nofun
  | reclaim => exact its.reclaim kept
  | check =>
      split
      · exact its.onward (by simp) (fun _ => id) nofun nofun
      · split
        · exact its.onward (by simp) (fun _ => id) nofun nofun
        · exact its.onward (by simp) (fun _ => id) nofun
            fun _ => its.complete rfl
  | kill =>
      refine (its.onward ?_ ?_ ?_ ?_).change fun _ => id
      · simp
      · exact fun _ => id
      · nofun
      · nofun
  | reap =>
      refine (its.onward ?_ ?_ ?_ ?_).change fun _ => id
      · simp
      · nofun
      · nofun
      · nofun
  | wait =>
      refine (its.onward ?_ ?_ ?_ ?_).change fun _ => id
      · simp
      · nofun
      · nofun
      · exact fun _ => its.complete rfl

/-- A fetch that was doomed stays so. -/
theorem Doomed.move
    (doomed : Doomed before)
    (move : Moves parse request exec before happening after) :
    Doomed after := by
  obtain ⟨phase, lost, waits, fails⟩ := doomed
  cases move with
  | cancel =>
      obtain ⟨⟨_, held⟩, stage, helpers, area⟩ := before
      cases phase
      exact ⟨rfl, lost, waits, fails⟩
  | ended => exact ⟨phase, lost, waits, fails⟩
  | start =>
      split
      · exact ⟨phase, nofun, nofun, nofun⟩
      · exact ⟨phase, nofun, nofun, nofun⟩
  | spawn => exact ⟨phase, nofun, nofun, nofun⟩
  | spawnFailed => exact ⟨phase, nofun, nofun, nofun⟩
  | takeStdout =>
      split
      · exact ⟨phase, nofun, nofun, nofun⟩
      · exact ⟨phase, nofun, nofun, nofun⟩
  | attach =>
      rw [Cancellation.attach, if_pos phase]
      exact ⟨phase, nofun, nofun, nofun⟩
  | read => exact ⟨phase, fun _ => lost rfl, nofun, nofun⟩
  | work => exact ⟨phase, fun _ => lost rfl, nofun, nofun⟩
  | readAll => exact ⟨phase, fun _ => lost rfl, nofun, nofun⟩
  | readFailed => exact ⟨phase, fun _ => lost rfl, nofun, nofun⟩
  | @reclaim token =>
      obtain ⟨phase, held⟩ := token
      cases lost rfl
      exact ⟨by assumption, nofun, nofun, nofun⟩
  | @check token =>
      have cancelled : token.isCancelled = true := decide_eq_true phase
      rw [if_pos cancelled]
      exact ⟨phase, nofun, nofun, nofun⟩
  | kill => exact ⟨phase, nofun, nofun, nofun⟩
  | reap => exact ⟨phase, nofun, nofun, nofun⟩
  | @wait _ _ _ child read => exact absurd rfl (waits child read)

/-- A fetch that reads nothing any more stays so. -/
theorem Sealed.move
    (closed : Sealed before)
    (move : Moves parse request exec before happening after) :
    Sealed after ∧ ∀ line, happening ≠ .read line := by
  obtain ⟨phase, apart⟩ := closed
  cases move with
  | cancel =>
      obtain ⟨⟨_, held⟩, stage, helpers, area⟩ := before
      cases phase
      exact ⟨⟨rfl, apart⟩, nofun⟩
  | ended => exact ⟨⟨phase, apart⟩, nofun⟩
  | start =>
      split
      · exact ⟨⟨phase, nofun⟩, nofun⟩
      · exact ⟨⟨phase, nofun⟩, nofun⟩
  | spawn => exact ⟨⟨phase, nofun⟩, nofun⟩
  | spawnFailed => exact ⟨⟨phase, nofun⟩, nofun⟩
  | takeStdout =>
      split
      · exact ⟨⟨phase, nofun⟩, nofun⟩
      · exact ⟨⟨phase, nofun⟩, nofun⟩
  | attach =>
      rw [Cancellation.attach, if_pos phase]
      exact ⟨⟨phase, nofun⟩, nofun⟩
  | read => exact absurd rfl (apart _ _)
  | work => exact absurd rfl (apart _ _)
  | readAll => exact absurd rfl (apart _ _)
  | readFailed => exact absurd rfl (apart _ _)
  | @reclaim token =>
      refine ⟨⟨(Cancellation.reclaim_phase token).trans phase, ?_⟩, nofun⟩
      dsimp only
      split
      · nofun
      · nofun
  | check =>
      split
      · exact ⟨⟨phase, nofun⟩, nofun⟩
      · split
        · exact ⟨⟨phase, nofun⟩, nofun⟩
        · exact ⟨⟨phase, nofun⟩, nofun⟩
  | kill => exact ⟨⟨phase, nofun⟩, nofun⟩
  | reap => exact ⟨⟨phase, nofun⟩, nofun⟩
  | wait => exact ⟨⟨phase, nofun⟩, nofun⟩

/-- The thread has its helper back only by having taken it back. -/
theorem reclaimed_move
    (taken : before.stage.reclaimed = true →
      ∃ child, .reclaimed (.running child) ∈ history)
    (move : Moves parse request exec before happening after)
    (stands : after.stage.reclaimed = true) :
    ∃ child, .reclaimed (.running child) ∈ history ++ [happening] := by
  have onward : before.stage.reclaimed = true →
      ∃ child, .reclaimed (.running child) ∈ history ++ [happening] :=
    fun stood => (taken stood).imp fun _ => List.mem_append_left _
  cases move with
  | cancel => exact onward stands
  | ended => exact onward stands
  | start => split at stands <;> cases stands
  | spawn => cases stands
  | spawnFailed => cases stands
  | takeStdout => split at stands <;> cases stands
  | attach => split at stands <;> cases stands
  | read => cases stands
  | work => cases stands
  | readAll => cases stands
  | readFailed => cases stands
  | @reclaim token =>
      dsimp only at stands
      split at stands
      · next child same =>
          exact ⟨child, List.mem_append_right _ (by simp [same])⟩
      · cases stands
  | check => exact onward rfl
  | kill => cases stands
  | reap => cases stands
  | wait => exact onward rfl

end cancelled

/-! ## Courses -/

section courses

variable
  {σ : Type}
  {parse : String → Option Json}
  {request : FetchRequest}
  {exec : Semantics Staging.interface σ}
  {start middle after final : Scene σ}
  {history earlier : List Happening}

theorem Course.its
    (fresh : Fresh start)
    (course : Course parse request exec start history final) :
    Kept final ∧ Its start.helpers.length final := by
  induction course with
  | rest => exact ⟨fresh.kept, fresh.its⟩
  | move earlier last inductionHypothesis =>
      obtain ⟨kept, its⟩ := inductionHypothesis
      exact ⟨kept.move last, its.move kept last⟩

theorem Course.reclaimed
    (fresh : Fresh start)
    (course : Course parse request exec start history final) :
    final.stage.reclaimed = true →
      ∃ child, .reclaimed (.running child) ∈ history := by
  induction course with
  | rest =>
      rw [fresh.stage]
      nofun
  | move earlier last inductionHypothesis =>
      exact reclaimed_move inductionHypothesis last

theorem Course.doomed
    (doomed : Doomed start)
    (course : Course parse request exec start history final) :
    Doomed final := by
  induction course with
  | rest => exact doomed
  | move earlier last inductionHypothesis => exact inductionHypothesis.move last

theorem Course.unread
    (closed : Sealed start)
    (course : Course parse request exec start history final) :
    Sealed final ∧ ∀ line, .read line ∉ history := by
  induction course with
  | rest => exact ⟨closed, nofun⟩
  | move earlier last inductionHypothesis =>
      obtain ⟨closed, unread⟩ := inductionHypothesis
      obtain ⟨closed, other⟩ := closed.move last
      refine ⟨closed, fun line told => ?_⟩
      rcases List.mem_append.mp told with told | told
      · exact unread line told
      · exact other line (List.mem_singleton.mp told).symm

/-- A fetch with a cancelled token comes to nothing. -/
theorem Fresh.doomed
    (fresh : Fresh start)
    (phase : start.token.phase = .cancelled) :
    Doomed start := by
  constructor
  · exact phase
  · exact fun _ => fresh.child
  · rw [fresh.stage]
    nofun
  · rw [fresh.stage]
    nofun

/-- What the cancellation finds running. -/
theorem running_of_cancelled
    (move : Moves parse request exec middle (.cancel .cancelled) after) :
    middle.token.phase = .running ∧ after = middle.cancel.2 := by
  generalize same : Happening.cancel .cancelled = happening at move
  cases move with
  | cancel =>
      have outcome : middle.token.cancel.1 = .cancelled :=
        (Happening.cancel.inj same).symm
      exact ⟨(Cancellation.cancel_outcome _).mp outcome, rfl⟩
  | _ => cases same

/-- Before the helper is taken back a cancellation decides the fetch. -/
theorem doomed_of_cancelled
    (running : middle.token.phase = .running)
    (waits : ∀ child read, middle.stage ≠ .waiting child read)
    (fails : ∀ fetched, middle.stage ≠ .finished (.ok fetched)) :
    Doomed middle.cancel.2 := by
  obtain ⟨⟨phase, held⟩, stage, helpers, area⟩ := middle
  cases running
  exact ⟨rfl, fun _ => rfl, waits, fails⟩

end courses

/-! ## Every fetch can come to its end -/

section ends

variable
  {σ : Type}
  (parse : String → Option Json)
  (request : FetchRequest)
  (exec : Semantics Staging.interface σ)

/-- From here the fetch can come to its end. -/
def Ends (scene : Scene σ) : Prop :=
  ∃ history final outcome, Course parse request exec scene history final ∧
    final.stage = .finished outcome

variable
  {parse request exec}
  {scene before after final : Scene σ}
  {history : List Happening}
  {happening : Happening}
  {token : Cancellation}
  {helpers : List Helper}
  {area : σ}
  {child : Nat}

theorem Course.onward
    (first : Moves parse request exec before happening after)
    (course : Course parse request exec after history final) :
    Course parse request exec before (happening :: history) final := by
  induction course with
  | rest => exact .move .rest first
  | move earlier last inductionHypothesis =>
      exact .move inductionHypothesis last

theorem Ends.of_move
    (first : Moves parse request exec before happening after)
    (ends : Ends parse request exec after) :
    Ends parse request exec before := by
  obtain ⟨history, final, outcome, course, finished⟩ := ends
  exact ⟨_, final, outcome, course.onward first, finished⟩

theorem ends_finished
    {outcome : Except UpstreamError Fetched} :
    Ends parse request exec ⟨token, .finished outcome, helpers, area⟩ :=
  ⟨_, _, outcome, .rest, rfl⟩

theorem ends_killing
    {error : UpstreamError} :
    Ends parse request exec ⟨token, .killing child error, helpers, area⟩ :=
  .of_move .kill (.of_move .reap ends_finished)

theorem ends_waiting
    {read : Read} :
    Ends parse request exec ⟨token, .waiting child read, helpers, area⟩ :=
  .of_move (@Moves.wait _ _ _ _ _ _ _ _ _ none) ends_finished

theorem ends_checking
    {parsed : Except UpstreamError Read} :
    Ends parse request exec ⟨token, .checking child parsed, helpers, area⟩ := by
  refine .of_move .check ?_
  split
  · exact ends_killing
  · split
    · exact ends_killing
    · exact ends_waiting

theorem ends_reclaiming
    {parsed : Except UpstreamError Read} :
    Ends parse request exec ⟨token, .reclaiming parsed, helpers, area⟩ := by
  refine .of_move .reclaim ?_
  split
  · exact ends_checking
  · exact ends_finished

/-- The work on a line is done, and the output may end after every line. -/
theorem ends_reading
    (total : ∀ op before, ∃ reply after, exec op before reply after)
    {doing : Program Staging.interface (Except UpstreamError Read)}
    (known : child < helpers.length) :
    Ends parse request exec ⟨token, .reading child doing, helpers, area⟩ := by
  induction doing generalizing area with
  | done outcome =>
      cases outcome with
      | error error => exact .of_move .readFailed ends_reclaiming
      | ok read =>
          have found : (helpers.modify child Helper.close)[child]? =
              some helpers[child].close := by
            rw [List.getElem?_modify_eq, List.getElem?_eq_getElem known]
            rfl
          exact .of_move (@Moves.ended _ _ _ _ _ _ _ _ child)
            (.of_move (.readAll found rfl) ends_reclaiming)
  | call op next inductionHypothesis =>
      obtain ⟨reply, after, issued⟩ := total op area
      exact .of_move (.work issued) (inductionHypothesis reply)

theorem ends_attaching
    (total : ∀ op before, ∃ reply after, exec op before reply after)
    (known : child < helpers.length) :
    Ends parse request exec ⟨token, .attaching child, helpers, area⟩ := by
  refine .of_move .attach ?_
  split
  · exact ends_reading total known
  · exact ends_finished

theorem ends_spawned
    (total : ∀ op before, ∃ reply after, exec op before reply after)
    (known : child < helpers.length) :
    Ends parse request exec ⟨token, .spawned child, helpers, area⟩ :=
  .of_move (@Moves.takeStdout _ _ _ _ _ _ _ _ true)
    (ends_attaching total known)

theorem ends_spawning
    (total : ∀ op before, ∃ reply after, exec op before reply after) :
    Ends parse request exec ⟨token, .spawning, helpers, area⟩ :=
  .of_move .spawn (ends_spawned total (by simp))

theorem Its.ends
    (total : ∀ op before, ∃ reply after, exec op before reply after)
    (its : Its child scene)
    (kept : Kept scene) :
    Ends parse request exec scene := by
  obtain ⟨token, stage, helpers, area⟩ := scene
  cases stage with
  | starting =>
      refine .of_move .start ?_
      split
      · exact ends_finished
      · exact ends_spawning total
  | spawning => exact ends_spawning total
  | spawned other => exact ends_spawned total (kept.held other rfl)
  | attaching other => exact ends_attaching total (kept.held other rfl)
  | reading pipe doing =>
      obtain rfl := its.about pipe rfl
      exact ends_reading total (its.known rfl)
  | reclaiming parsed => exact ends_reclaiming
  | checking other parsed => exact ends_checking
  | killing other error => exact ends_killing
  | reaping other error => exact .of_move .reap ends_finished
  | waiting other read => exact ends_waiting
  | finished outcome => exact ends_finished

end ends

/-! ## Ownership -/

section ownership

variable
  {σ : Type}
  {parse : String → Option Json}
  {request : FetchRequest}
  {exec : Semantics Staging.interface σ}
  {start middle after final : Scene σ}
  {history earlier : List Happening}

/-- A cancellation before the end of the output kills and reaps the helper that
the token has, or nothing is read from it any more. -/
theorem stopped_or_sealed
    (fresh : Fresh start)
    (course : Course parse request exec start earlier middle)
    (running : middle.token.phase = .running) :
    middle.cancel.2.Stopped start.helpers.length ∨ Sealed middle.cancel.2 := by
  obtain ⟨kept, its⟩ := course.its fresh
  obtain ⟨⟨phase, held⟩, stage, helpers, area⟩ := middle
  cases running
  cases held with
  | some held =>
      left
      obtain rfl := its.lent held rfl
      have known := (kept.lent _ rfl).2
      have found := List.getElem?_eq_getElem known
      have once := kept.once _ _ found
      refine ⟨helpers[start.helpers.length].terminateAndReap, ?_, rfl, ?_⟩
      · exact (List.getElem?_modify_eq ..).trans (congrArg _ found)
      · simp only [Scene.owners, if_true] at once
        rw [Helper.reaps_terminateAndReap]
        omega
  | none =>
      right
      refine ⟨rfl, ?_⟩
      rintro pipe doing rfl
      rcases its.lending rfl with lent | cancelled
      · cases lent
      · cases cancelled

/-- However a fetch and the cancellations of its token interleave: a helper has
one owner until it is reaped, and once the fetch is over, which it can always
come to be, every helper was reaped once.  A cancellation that wins before the
output of the helper has ended kills and reaps it, or nothing is read from it
any more, and the fetch does not succeed; it succeeds only if it took the
helper back before every cancellation that won. -/
theorem helper_owned
    (fresh : Fresh start)
    (course : Course parse request exec start history final) :
    (∀ child helper, final.helpers[child]? = some helper →
      final.owners child + helper.reaps = 1) ∧
    (∀ outcome, final.stage = .finished outcome →
      ∀ helper ∈ final.helpers, helper.reaps = 1) ∧
    ((∀ op before, ∃ reply after, exec op before reply after) →
      Ends parse request exec final) ∧
    (∀ earlier middle after later,
      Course parse request exec start earlier middle →
      Moves parse request exec middle (.cancel .cancelled) after →
      Course parse request exec after later final →
        (¬middle.Ended start.helpers.length →
          (after.Stopped start.helpers.length ∨
            ∀ line, .read line ∉ later) ∧
          ∀ fetched, final.stage ≠ .finished (.ok fetched)) ∧
        ∀ fetched, final.stage = .finished (.ok fetched) →
          ∃ child, .reclaimed (.running child) ∈ earlier) ∧
    ∀ fetched, final.stage = .finished (.ok fetched) →
      start.token.phase ≠ .cancelled := by
  obtain ⟨kept, its⟩ := course.its fresh
  refine ⟨kept.once, fun outcome finished helper known =>
    kept.reaps_of_finished finished known, fun total => its.ends total kept,
    ?_, ?_⟩
  · intro earlier middle after later before move beyond
    obtain ⟨running, rfl⟩ := running_of_cancelled move
    have taken := before.reclaimed fresh
    have found := (before.its fresh).2
    constructor
    · intro open_
      have doomed : Doomed middle.cancel.2 := by
        apply doomed_of_cancelled running
        · intro child read stands
          exact open_ (found.complete (by rw [stands]; rfl))
        · intro fetched stands
          exact open_ (found.complete (by rw [stands]; rfl))
      refine ⟨?_, (beyond.doomed doomed).fails⟩
      exact (stopped_or_sealed fresh before running).imp_right
        fun closed => (beyond.unread closed).2
    · intro fetched succeeded
      by_contra untaken
      have doomed : Doomed middle.cancel.2 := by
        apply doomed_of_cancelled running
        · intro child read stands
          exact untaken (taken (by rw [stands]; rfl))
        · intro fetched stands
          exact untaken (taken (by rw [stands]; rfl))
      exact (beyond.doomed doomed).fails fetched succeeded
  · intro fetched succeeded phase
    exact (course.doomed (fresh.doomed phase)).fails fetched succeeded

/-- A fetch before it has done anything. -/
def sampleScene : Scene Unit := ⟨.new, .starting, [], ()⟩

def sampleFetch : FetchRequest :=
  ⟨.model, "org/repo", "main", [], [], .other "a", none⟩

/-- A helper that is cancelled while the thread reads is reaped once. -/
theorem helper_owned_sample :
    ∃ history final,
      Course (fun _ => none) sampleFetch (fun _ _ _ _ => True) sampleScene
        history final ∧
      .cancel .cancelled ∈ history ∧ final.helpers ≠ [] ∧
      ∀ helper ∈ final.helpers, helper.reaps = 1 := by
  have course :=
    @Course.rest _ (fun _ => none) sampleFetch (fun _ _ _ _ => True) sampleScene
    |>.move .start |>.move .spawn
    |>.move (@Moves.takeStdout _ _ _ _ _ _ _ _ true) |>.move .attach
    |>.move .cancel |>.move (@Moves.ended _ _ _ _ _ _ _ _ 0)
    |>.move (.readAll rfl rfl) |>.move .reclaim
  have owned := helper_owned ⟨rfl, rfl, by simp [sampleScene]⟩ course
  exact ⟨_, _, course, by decide, by decide, owned.2.1 _ rfl⟩

end ownership

end Fetcher
end ModelKeep
