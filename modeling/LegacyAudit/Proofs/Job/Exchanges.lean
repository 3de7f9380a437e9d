import LegacyAudit.Job.Faults
import LegacyAudit.Proofs.Job.Plan

/-!
# Runs under observation

A storage may keep the job store inside a state of its own, and it may refuse calls for reasons of
its own. What a run asks of it, what it answers and what a reader can see after every call is taken
down by a storage that logs its exchanges.

## Main definitions

- `Storage.Faithful`, `Storage.MayRefuse` - storages that behave as the job store, the second ones
  up to refusals
- `Exchange`, `Storage.logged` - calls with their answers and the states after them
- `Entry.Observed` - accepted updates as they are logged
- `Storage.MayRefuse.runJob_cases` - the two courses that a run can take

## Design notes

Every call is served at a time of its own, so the statements hold of a store with a running clock.
-/

namespace LegacyAudit

variable {σ : Type}

namespace Storage

/-- A storage answers a call as the job store in its state does at some time. -/
def Serves (storage : Storage σ) (store : σ → Store) (call : Call) (s : σ) : Prop :=
  ∃ now, (storage call s).1 = (Store.storage now call (store s)).1 ∧
    store (storage call s).2 = (Store.storage now call (store s)).2

/-- A storage that behaves as the job store in its state. -/
def Faithful (storage : Storage σ) (store : σ → Store) : Prop :=
  ∀ call s, storage.Serves store call s

/-- A storage that behaves as the job store in its state, except that it may refuse any call. A
refused call leaves the store as it is. -/
def MayRefuse (storage : Storage σ) (store : σ → Store) : Prop :=
  ∀ call s, storage.Serves store call s ∨
    ∃ err, (storage call s).1 = .refused err ∧ store (storage call s).2 = store s

end Storage

theorem Store.storage_faithful (now : Timestamp) : (Store.storage now).Faithful id :=
  fun _ _ => ⟨now, rfl, rfl⟩

theorem Storage.Faithful.mayRefuse {storage : Storage σ} {store : σ → Store}
    (h : storage.Faithful store) : storage.MayRefuse store :=
  fun call s => .inl (h call s)

theorem Faults.storage_mayRefuse {faults : List Fault} {behind : Storage σ} {store : σ → Store}
    (hfaults : ∀ fault ∈ faults, ∃ err, fault.answer = .refused err)
    (h : behind.MayRefuse store) :
    (Faults.storage faults behind).MayRefuse fun s => store s.state := by
  intro call s
  rw [Storage.Serves, Faults.storage]
  cases hnext : next? faults s call.kind call.jobId with
  | none => exact h call s.state
  | some answer =>
    rw [next?, Option.map_eq_some_iff] at hnext
    obtain ⟨fault, hfault, rfl⟩ := hnext
    obtain ⟨err, herr⟩ := hfaults fault (List.mem_of_find?_eq_some hfault)
    exact .inr ⟨err, herr, rfl⟩

variable {storage : Storage σ} {store : σ → Store} {id : JobId} {s : σ} {e : Entry} {u : Update}

/-- A served update makes a step of the entry, or is refused because there is none. -/
theorem Storage.Serves.update_cases (h : storage.Serves store (.update id u) s)
    (he : (store s).find? id = some e) :
    (∃ s' e' now, storage (.update id u) s = (.accepted, s') ∧ e.Step now u e' ∧
        (store s').find? id = some e') ∨
      ∃ err s' now, storage (.update id u) s = (.refused err, s') ∧ (∀ e', ¬ e.Step now u e') ∧
        (store s').find? id = some e := by
  obtain ⟨now, hanswer, hstate⟩ := h
  rcases hcall : storage (.update id u) s with ⟨answer, s'⟩
  rw [hcall] at hanswer hstate
  simp only [Store.storage] at hanswer hstate
  rcases Store.perform_update he now u with ⟨e', hstep, hperform⟩ | ⟨⟨err, hperform⟩, hstuck⟩
  · rw [hperform] at hanswer hstate
    subst hanswer
    exact .inl ⟨s', e', now, rfl, hstep, by rw [hstate, Store.find?_put_self]⟩
  · rw [hperform] at hanswer hstate
    subst hanswer
    exact .inr ⟨err, s', now, rfl, hstuck, by rw [hstate, he]⟩

/-- An update is accepted and makes a step, or it is refused without effect on the job. -/
theorem Storage.MayRefuse.update_cases (h : storage.MayRefuse store)
    (he : (store s).find? id = some e) (u : Update) :
    (∃ s' e' now, storage (.update id u) s = (.accepted, s') ∧ e.Step now u e' ∧
        (store s').find? id = some e') ∨
      ∃ err s', storage (.update id u) s = (.refused err, s') ∧ (store s').find? id = some e := by
  rcases h (.update id u) s with hserves | ⟨err, hanswer, hstate⟩
  · rcases hserves.update_cases he with haccepted | ⟨err, s', _, hcall, _, he'⟩
    · exact .inl haccepted
    · exact .inr ⟨err, s', hcall, he'⟩
  · exact .inr ⟨err, _, Prod.ext hanswer rfl, by rw [hstate, he]⟩

/-- A faithful storage goes through all updates if the entry can always make the next step. -/
theorem Storage.Faithful.execute_eq (h : storage.Faithful store)
    (he : (store s).find? id = some e) {us : List Update}
    (hsteps : ∀ done u rest e', us = done ++ u :: rest → e.Steps done e' →
      ∀ now, ∃ e'', e'.Step now u e'') :
    ∃ final e', execute storage id us s = (⟨us, .accepted⟩, final) ∧ e.Steps us e' ∧
      (store final).find? id = some e' := by
  induction us generalizing s e with
  | nil => exact ⟨s, e, rfl, .nil, he⟩
  | cons u us ih =>
    rcases (h (.update id u) s).update_cases he with
      ⟨s', mid, now, hcall, hstep, hmid⟩ | ⟨err, _, now, _, hstuck, _⟩
    · obtain ⟨final, e', hrun, hrest, hfinal⟩ := ih hmid fun done v rest e' hus hdone =>
        hsteps (u :: done) v rest e' (congrArg (u :: ·) hus) (.cons hstep hdone)
      refine ⟨final, e', ?_, .cons hstep hrest, hfinal⟩
      rw [execute_cons_accepted hcall, hrun]
    · obtain ⟨e', hstep⟩ := hsteps [] u us e rfl .nil now
      exact absurd hstep (hstuck e')

/-- A call with its answer and the state after it. -/
structure Exchange (σ : Type) where
  call : Call
  answer : Answer
  after : σ

/-- A storage that keeps a log of its exchanges, oldest first. -/
def Storage.logged (storage : Storage σ) : Storage (σ × List (Exchange σ)) := fun call (s, log) =>
  let (answer, s) := storage call s
  (answer, s, log ++ [⟨call, answer, s⟩])

theorem Storage.logged_eq {call : Call} {answer : Answer} {s' : σ}
    (h : storage call s = (answer, s')) (log : List (Exchange σ)) :
    storage.logged call (s, log) = (answer, s', log ++ [⟨call, answer, s'⟩]) := by
  rw [Storage.logged, h]

theorem execute_logged (storage : Storage σ) (id : JobId) (us : List Update) (s : σ)
    (log : List (Exchange σ)) :
    ∃ seen, execute storage.logged id us (s, log) =
      ((execute storage id us s).1, (execute storage id us s).2, log ++ seen) := by
  induction us generalizing s log with
  | nil => exact ⟨[], by simp [execute]⟩
  | cons u us ih =>
    rcases hcall : storage (.update id u) s with ⟨answer, s'⟩
    have hlogged := Storage.logged_eq hcall log
    by_cases hanswer : answer = .accepted
    · subst hanswer
      obtain ⟨seen, hrest⟩ := ih s' (log ++ [⟨.update id u, .accepted, s'⟩])
      refine ⟨⟨.update id u, .accepted, s'⟩ :: seen, ?_⟩
      rw [execute_cons_accepted hcall, execute_cons_accepted hlogged, hrest]
      simp
    · refine ⟨[⟨.update id u, answer, s'⟩], ?_⟩
      rw [execute_cons_stopped hcall hanswer, execute_cons_stopped hlogged hanswer]

theorem runJob_logged (storage : Storage σ) (id : JobId) (clock : MarkClock)
    (outcomes : List FileOutcome) (s : σ) (log : List (Exchange σ)) :
    ∃ seen, runJob storage.logged id clock outcomes (s, log) =
      ((runJob storage id clock outcomes s).1, (runJob storage id clock outcomes s).2,
        log ++ seen) := by
  obtain ⟨seen, hlogged⟩ := execute_logged storage id (plan id clock outcomes) s log
  rcases hrun : execute storage id (plan id clock outcomes) s with ⟨⟨done, answer⟩, s'⟩
  rw [hrun] at hlogged
  cases answer with
  | accepted => exact ⟨seen, by rw [runJob_of_accepted hrun, runJob_of_accepted hlogged]⟩
  | broken => exact ⟨seen, by rw [runJob_of_broken hrun, runJob_of_broken hlogged]⟩
  | refused err =>
    rw [runJob_of_refused hrun, runJob_of_refused hlogged]
    rcases hlast : storage (.update id (.failed err.message)) s' with ⟨answer, s''⟩
    rw [Storage.logged_eq hlast]
    refine ⟨seen ++ [⟨.update id (.failed err.message), answer, s''⟩], ?_⟩
    rw [← List.append_assoc]
    cases answer <;> rfl

theorem runJob_of_logged {clock : MarkClock} {outcomes : List FileOutcome} {ending : RunEnd}
    {final : σ} {log log' : List (Exchange σ)}
    (h : runJob storage.logged id clock outcomes (s, log) = (ending, final, log')) :
    runJob storage id clock outcomes s = (ending, final) := by
  obtain ⟨seen, hlogged⟩ := runJob_logged storage id clock outcomes s log
  rw [h, Prod.mk.injEq, Prod.mk.injEq] at hlogged
  exact Prod.ext hlogged.1.symm hlogged.2.1.symm

/-- Accepted updates of a job as they are logged: the state after each of them has the entry that
the updates up to it lead to. -/
inductive Entry.Observed (store : σ → Store) (id : JobId) :
    Entry → List Update → List (Exchange σ) → Entry → Prop
  | nil {e : Entry} : Observed store id e [] [] e
  | cons {now : Timestamp} {u : Update} {us : List Update} {log : List (Exchange σ)}
      {e mid e' : Entry} {s : σ} (h : e.Step now u mid) (hs : (store s).find? id = some mid)
      (hrest : Observed store id mid us log e') :
      Observed store id e (u :: us) (⟨.update id u, .accepted, s⟩ :: log) e'

namespace Entry.Observed

variable {us : List Update} {log : List (Exchange σ)} {e' : Entry}

theorem steps (h : e.Observed store id us log e') : e.Steps us e' := by
  induction h with
  | nil => exact .nil
  | cons h _ _ ih => exact .cons h ih

theorem calls (h : e.Observed store id us log e') :
    log.map Exchange.call = us.map (.update id) := by
  induction h with
  | nil => rfl
  | cons _ _ _ ih => rw [List.map_cons, List.map_cons, ih]

theorem accepted (h : e.Observed store id us log e') : ∀ x ∈ log, x.answer = .accepted := by
  induction h with
  | nil => simp
  | cons _ _ _ ih =>
    intro x hx
    rcases List.mem_cons.mp hx with rfl | hrest
    · rfl
    · exact ih x hrest

/-- What a reader sees after an update is the entry that some first updates lead to. -/
theorem after (h : e.Observed store id us log e') {x : Exchange σ} (hx : x ∈ log) :
    ∃ done mid, done <+: us ∧ e.Steps done mid ∧ (store x.after).find? id = some mid := by
  induction h with
  | nil => simp at hx
  | @cons now u us log e mid e' s hstep hs _ ih =>
    rcases List.mem_cons.mp hx with rfl | hrest
    · exact ⟨[u], mid, ⟨us, rfl⟩, .cons hstep .nil, hs⟩
    · obtain ⟨done, e₁, hdone, hsteps, he₁⟩ := ih hrest
      exact ⟨u :: done, e₁, List.cons_prefix_cons.mpr ⟨rfl, hdone⟩, .cons hstep hsteps, he₁⟩

end Entry.Observed

/-- A list of updates is accepted as a whole or up to an update that is refused. -/
theorem Storage.MayRefuse.execute_cases (h : storage.MayRefuse store)
    (he : (store s).find? id = some e) (us : List Update) (log : List (Exchange σ)) :
    (∃ final seen e',
        execute storage.logged id us (s, log) = (⟨us, .accepted⟩, final, log ++ seen) ∧
        e.Observed store id us seen e' ∧ (store final).find? id = some e') ∨
      ∃ done u rest err final seen e', us = done ++ u :: rest ∧
        execute storage.logged id us (s, log) = (⟨done, .refused err⟩, final,
          log ++ (seen ++ [⟨.update id u, .refused err, final⟩])) ∧
        e.Observed store id done seen e' ∧ (store final).find? id = some e' := by
  induction us generalizing s e log with
  | nil => exact .inl ⟨s, [], e, by simp [execute], .nil, he⟩
  | cons u us ih =>
    -- a refusal ends the execution, so the hypothesis is needed only behind an accepted update
    rcases h.update_cases he u with ⟨s', mid, now, hcall, hstep, hmid⟩ | ⟨err, s', hcall, he'⟩
    · have hlogged := Storage.logged_eq hcall log
      rcases ih hmid (log ++ [⟨.update id u, .accepted, s'⟩]) with
        ⟨final, seen, e', hrun, hseen, hfinal⟩ |
        ⟨done, v, rest, err, final, seen, e', rfl, hrun, hseen, hfinal⟩
      · refine .inl ⟨final, ⟨.update id u, .accepted, s'⟩ :: seen, e', ?_, .cons hstep hmid hseen,
          hfinal⟩
        rw [execute_cons_accepted hlogged, hrun]
        simp
      · refine .inr ⟨u :: done, v, rest, err, final, ⟨.update id u, .accepted, s'⟩ :: seen, e', rfl,
          ?_, .cons hstep hmid hseen, hfinal⟩
        rw [execute_cons_accepted hlogged, hrun]
        simp
    · refine .inr ⟨[], u, us, err, s', [], e, rfl, ?_, .nil, he'⟩
      rw [execute_cons_stopped (Storage.logged_eq hcall log) (by simp)]
      simp

/-- A run goes through its plan; or it is stopped by a refusal, asks once for the job to fail, and
that is accepted or refused as well. -/
theorem Storage.MayRefuse.runJob_cases (h : storage.MayRefuse store)
    (he : (store s).find? id = some e) (clock : MarkClock) (outcomes : List FileOutcome) :
    (∃ final log e', runJob storage.logged id clock outcomes (s, []) = (.finished, final, log) ∧
        e.Observed store id (plan id clock outcomes) log e' ∧ (store final).find? id = some e') ∨
      ∃ done u rest err mid answer final seen e₁ e₂, plan id clock outcomes = done ++ u :: rest ∧
        runJob storage.logged id clock outcomes (s, []) = (.finished, final,
          seen ++ [⟨.update id u, .refused err, mid⟩,
            ⟨.update id (.failed err.message), answer, final⟩]) ∧
        e.Observed store id done seen e₁ ∧ (store mid).find? id = some e₁ ∧
        (store final).find? id = some e₂ ∧
        ((answer = .accepted ∧ ∃ now, e₁.Step now (.failed err.message) e₂) ∨
          ((∃ err', answer = .refused err') ∧ e₂ = e₁)) := by
  rcases h.execute_cases he (plan id clock outcomes) [] with
    ⟨final, seen, e', hrun, hseen, hfinal⟩ |
    ⟨done, u, rest, err, mid, seen, e₁, hplan, hrun, hseen, hmid⟩
  · exact .inl ⟨final, seen, e', runJob_of_accepted hrun, hseen, hfinal⟩
  · have hend := runJob_of_refused hrun
    rcases h.update_cases hmid (.failed err.message) with
      ⟨final, e₂, now, hcall, hstep, hfinal⟩ | ⟨err', final, hcall, hfinal⟩
    · rw [Storage.logged_eq hcall] at hend
      refine .inr ⟨done, u, rest, err, mid, .accepted, final, seen, e₁, e₂, hplan, ?_, hseen, hmid,
        hfinal, .inl ⟨rfl, now, hstep⟩⟩
      rw [hend]
      simp
    · rw [Storage.logged_eq hcall] at hend
      refine .inr ⟨done, u, rest, err, mid, .refused err', final, seen, e₁, e₁, hplan, ?_, hseen,
        hmid, hfinal, .inr ⟨⟨err', rfl⟩, rfl⟩⟩
      rw [hend]
      simp

end LegacyAudit
