import LegacyAudit.Job.Store

/-!
# Storages

Whoever runs jobs talks to a storage, which accepts a call, refuses it, or breaks down and takes the
caller with it. A list of updates is asked for up to the first one that is not accepted.

## Main definitions

- `Answer`, `Storage` - what a storage answers to calls
- `Store.storage` - the job store as a storage
- `execute` - asks for the updates of a job one after the other
-/

namespace LegacyAudit

inductive Answer where
  | accepted
  | refused (error : StorageError)
  /-- The storage breaks down under the call. -/
  | broken
  deriving DecidableEq, Repr

/-- Something that answers calls and has a state. -/
abbrev Storage (σ : Type) := Call → σ → Answer × σ

def Store.storage (now : Timestamp) : Storage Store := fun call store =>
  match store.perform now call with
  | (.ok (), store) => (.accepted, store)
  | (.error e, store) => (.refused e, store)

/-- What became of a list of updates: the ones that were accepted and the last answer. -/
structure Execution where
  accepted : List Update
  answer : Answer
  deriving DecidableEq, Repr

/-- Asks for updates of a job in order, up to the first one that is not accepted. -/
def execute {σ : Type} (storage : Storage σ) (id : JobId) : List Update → σ → Execution × σ
  | [], s => (⟨[], .accepted⟩, s)
  | update :: rest, s =>
    match storage (.update id update) s with
    | (.accepted, s) =>
      let (execution, s) := execute storage id rest s
      (⟨update :: execution.accepted, execution.answer⟩, s)
    | (answer, s) => (⟨[], answer⟩, s)

end LegacyAudit
