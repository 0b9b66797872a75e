import Mathlib.Data.Prod.Lex
import ModelKeep.Jobs.Paging
import ModelKeep.Paging

/-!
# The history as a partition

Read page by page, the history is every job once, the newest first and jobs of
one time in the descending order of their ids.
-/

namespace ModelKeep
namespace Jobs

open Concurrency Program

/-- The records of these jobs are on disk and in the history, and no others
are. -/
structure OnRecord (jobs : Finset Job) (files : JobFiles) : Prop where
  record : ∀ id content,
    (files.lookup (.record id)).map Storage.File.content = some content ↔
      ∃ job ∈ jobs, job.id = id ∧ content = some (.job job)
  valid : ∀ job ∈ jobs, isJobId job.id = true
  dated : ∀ job ∈ jobs, job.createdAt < 2 ^ 64
  listed : ∀ job ∈ jobs, .history (historyKey job.createdAt job.id) ∈ files
  alone : ∀ job ∈ jobs, ∀ key, .history key ∈ files →
    jobIdFromHistoryKey key = some job.id →
      key = historyKey job.createdAt job.id

/-- Where a job stands in the history, the newest first. -/
def newestFirst (job : Job) : (Nat ×ₗ String)ᵒᵈ :=
  OrderDual.toDual (toLex (job.createdAt, job.id))

/-- What a page that is asked for is answered with. -/
def PageRead
    (limit : Nat)
    (files : JobFiles)
    (cursor : Option String)
    (page : Paging.Page Job String) :
    Prop :=
  Returns Healthy (listPage limit cursor) files
    (.ok ⟨page.items, page.next⟩) files

section recorded

variable {jobs : Finset Job} {files : JobFiles} {job other : Job}

/-- What the records and the history show. -/
def ledgerOf (files : JobFiles) : Ledger where
  record := durable files
  entry _ := none
  history := {key | .history key ∈ files}
  active := ∅

theorem OnRecord.durable_iff
    (recorded : OnRecord jobs files)
    (id : String) :
    durable files id = some job ↔ job ∈ jobs ∧ job.id = id := by
  have content := recorded.record id (some (.job job))
  constructor
  · intro found
    unfold durable at found
    split at found
    · next there =>
        cases found
        obtain ⟨other, member, named, same⟩ := content.mp (by rw [there]; rfl)
        cases same
        exact ⟨member, named⟩
    · cases found
  · rintro ⟨member, named⟩
    obtain ⟨⟨held, synced⟩, there, same⟩ := Option.map_eq_some_iff.mp
      (content.mpr ⟨job, member, named, rfl⟩)
    dsimp only at same
    rw [durable, there, same]

theorem OnRecord.filed
    (recorded : OnRecord jobs files) :
    (ledgerOf files).Filed files where
  record id := by
    show _ = (durable files id).map _
    cases found : files.lookup (.record id) with
    | none =>
        rw [durable, found]
        rfl
    | some file =>
        have content := (recorded.record id file.content).mp
          (by rw [found]; rfl)
        obtain ⟨job, member, named, same⟩ := content
        rw [(recorded.durable_iff id).mpr ⟨member, named⟩, Option.map_some,
          Option.map_some, same]
  history _ := Iff.rfl
  named id job found := ((recorded.durable_iff id).mp found).2
  valid id job found := recorded.valid job ((recorded.durable_iff id).mp found).1
  dated id job found := recorded.dated job ((recorded.durable_iff id).mp found).1
  listed id job found :=
    recorded.listed job ((recorded.durable_iff id).mp found).1
  alone id job found := recorded.alone job ((recorded.durable_iff id).mp found).1

theorem newestFirst_lt_iff
    (recorded : OnRecord jobs files)
    (member : job ∈ jobs)
    (memberToo : other ∈ jobs) :
    newestFirst job < newestFirst other ↔
      Ledger.keyOf other < Ledger.keyOf job := by
  rw [Ledger.keyOf, Ledger.keyOf, historyKey_lt_iff
    (recorded.dated other memberToo) (recorded.dated job member)
    (recorded.valid other memberToo) (recorded.valid job member),
    newestFirst, newestFirst, OrderDual.toDual_lt_toDual, Prod.Lex.lt_iff]
  rfl

/-- Being below a cursor is being past its position. -/
theorem OnRecord.below_iff
    {cursor : Option String}
    {bound : Option (Nat ×ₗ String)ᵒᵈ}
    (recorded : OnRecord jobs files)
    (asks : Paging.Asks jobs newestFirst Job.id cursor bound) :
    (ledgerOf files).Below ((ledgerOf files).cursorKey cursor) job ↔
      Paging.Past jobs newestFirst bound job := by
  have here : (ledgerOf files).record job.id = some job ↔ job ∈ jobs :=
    (recorded.durable_iff job.id).trans (and_iff_left rfl)
  unfold Ledger.Below Paging.Past
  rw [here]
  refine and_congr_right fun member => ?_
  cases asks with
  | first => simp [Ledger.cursorKey]
  | @later final among =>
      have key : (ledgerOf files).cursorKey (some final.id) =
          some (Ledger.keyOf final) := by
        have found : (ledgerOf files).record final.id = some final :=
          (recorded.durable_iff final.id).mpr ⟨among, rfl⟩
        rw [Ledger.cursorKey, Option.bind_some, found]
        rfl
      rw [key]
      simp [newestFirst_lt_iff recorded among member]

/-- A cursor that is asked for names a record. -/
theorem OnRecord.known
    {cursor : Option String}
    {bound : Option (Nat ×ₗ String)ᵒᵈ}
    (recorded : OnRecord jobs files)
    (asks : Paging.Asks jobs newestFirst Job.id cursor bound) :
    ∀ id ∈ cursor, ∃ job, (ledgerOf files).record id = some job := by
  cases asks with
  | first => exact nofun
  | @later final among =>
      rintro _ ⟨⟩
      exact ⟨final, (recorded.durable_iff final.id).mpr ⟨among, rfl⟩⟩

/-- Every page that is asked for is answered, and it is whole. -/
theorem OnRecord.answers
    {limit : Nat}
    {cursor : Option String}
    {bound : Option (Nat ×ₗ String)ᵒᵈ}
    (recorded : OnRecord jobs files)
    (positive : 0 < limit)
    (asks : Paging.Asks jobs newestFirst Job.id cursor bound) :
    (∃ page, PageRead limit files cursor page) ∧
      ∀ outcome final, Returns Healthy (listPage limit cursor) files outcome
        final → final = files ∧ ∃ page, outcome = .ok page ∧
          Paging.Whole jobs newestFirst Job.id limit bound
            ⟨page.items, page.nextCursor⟩ := by
  have whole : ∀ outcome final, Returns Healthy (listPage limit cursor) files
      outcome final → final = files ∧ ∃ page, outcome = .ok page ∧
        Paging.Whole jobs newestFirst Job.id limit bound
          ⟨page.items, page.nextCursor⟩ := by
    intro outcome final returns
    obtain ⟨_, rfl, page, rfl, pageOf, full⟩ :=
      (@guards_listPage _ _ (fun _ => True) _ _ recorded.filed trivial positive
        (recorded.known asks)).of_runs returns
    have past : ∀ job ∈ page.items, Paging.Past jobs newestFirst bound job :=
      fun job inside => (recorded.below_iff asks).mp (pageOf.below job inside)
    refine ⟨rfl, page, rfl, ?_, past, ?_, ?_⟩
    · refine pageOf.sorted.imp_of_mem fun inside insideToo less => ?_
      exact (newestFirst_lt_iff recorded (past _ inside).1
        (past _ insideToo).1).mpr less
    · intro ended job beyond
      exact pageOf.last ended job ((recorded.below_iff asks).mpr beyond)
    · intro id goes
      obtain ⟨last, inside, named, least, split⟩ := pageOf.next id goes
      have lastIn := (past last inside).1
      refine ⟨full (by rw [show page.nextCursor = some id from goes]; simp),
        last, inside, named, ?_, ?_⟩
      · intro job member
        rw [← not_lt, newestFirst_lt_iff recorded lastIn (past job member).1,
          not_lt]
        exact least job member
      · intro job beyond
        refine (split job ((recorded.below_iff asks).mpr beyond)).imp_right ?_
        exact (newestFirst_lt_iff recorded lastIn beyond.1).mpr
  refine ⟨?_, whole⟩
  have looks : Only Looks (listPage limit cursor).run := looks_listPage
  obtain ⟨outcome, final, run⟩ := looks.exists_runs looks_total files
  obtain ⟨same, page, answer, _⟩ := whole outcome final run
  rw [same, answer] at run
  exact ⟨⟨page.items, page.nextCursor⟩, run⟩

theorem OnRecord.serves
    {limit : Nat}
    (recorded : OnRecord jobs files)
    (positive : 0 < limit) :
    Paging.Serves jobs newestFirst Job.id limit (PageRead limit files) := by
  have reads : ∀ {cursor bound page},
      Paging.Asks jobs newestFirst Job.id cursor bound →
      PageRead limit files cursor page →
      Paging.Whole jobs newestFirst Job.id limit bound page := by
    intro cursor bound page asks read
    obtain ⟨_, found, same, whole⟩ :=
      (recorded.answers positive asks).2 _ _ read
    cases same
    exact whole
  exact ⟨(recorded.answers positive .first).1,
    fun final member => (recorded.answers positive (.later member)).1,
    fun page => reads .first, fun final member page => reads (.later member)⟩

end recorded

end Jobs
end ModelKeep
