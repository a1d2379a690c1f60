import SoulSociety.Lib.Slots
import SoulSociety.Provider.HandlerOnce

/-! The live intake (`NostrEventHandler` of `provider/src/nostr/handler.rs`) around the signed job
    handler. A notification takes one of 64 dispatch slots or is dropped; its task runs `handle_event`
    and then sends what that returned; a slot is free again when its task ends. The relay pool is the
    environment: it notifies of any events, and answers `send_event` in any way. -/

namespace SoulSociety.Provider
open Lib SoulSociety.Core

/-- `MAX_INFLIGHT_EVENTS`. -/
def maxInflightEvents : ℕ := 64

/-- How far the task of a notification is: before `handle_event`, in it as one of its calls, before the
    end of `send_event`, or gone with its permit. -/
inductive DispatchTask where
  | spawned (event : Event)
  | handling (call : ℕ)
  | sending (result : Event)
  | finished
  deriving DecidableEq

namespace DispatchTask

/-- The task has a dispatch slot. -/
def holdsPermit : DispatchTask → Bool
  | .finished => false
  | _ => true

/-- The task is in `handle_event`. -/
def inHandler : DispatchTask → Bool
  | .handling _ => true
  | _ => false

/-- The event that is being sent. -/
def result : DispatchTask → Option Event
  | .sending e => some e
  | _ => none

end DispatchTask

/-- The steps that a call, and the task after it, can still take. -/
def Phase.left : Phase → ℕ
  | .lookedUp => 4
  | .processing => 3
  | .signed _ => 2
  | .returned => 0

theorem Phase.left_pos : ∀ {phase : Phase}, phase ≠ .returned → 0 < phase.left
  | .lookedUp, _ | .processing, _ | .signed _, _ => Nat.succ_pos _
  | .returned, h => absurd rfl h

/-- The event that `handle_event` is seen to return. -/
def Observation.event : Observation → Option Event
  | .returned _ result => result
  | _ => none

/-- The handler, its free dispatch slots, the tasks, and what was sent. -/
structure NostrEventHandler where
  signed_jobs : SignedJobHandler
  dispatch_slots : ℕ
  tasks : List DispatchTask
  sent : List Event
  deriving DecidableEq

namespace NostrEventHandler

/-- All slots are free. -/
def new : NostrEventHandler where
  signed_jobs := .new maxDedupeEntries
  dispatch_slots := maxInflightEvents
  tasks := []
  sent := []

/-- A notification arrives, or a task takes its next step. -/
inductive Label where
  | notification (event : Event)
  | handle (task now : ℕ)
  | claim (task : ℕ)
  | complete (task : ℕ) (answers : Answers) (t : ℕ)
  | remember (task : ℕ)
  | send (task : ℕ)

/-- The handler has moved. -/
def setJobs (s : NostrEventHandler) (handler : SignedJobHandler) : NostrEventHandler :=
  { s with signed_jobs := handler }

/-- The task has moved. -/
def setTask (s : NostrEventHandler) (i : ℕ) (task : DispatchTask) : NostrEventHandler :=
  { s with tasks := s.tasks.set i task }

/-- The task ends, and drops its permit. -/
def finish (s : NostrEventHandler) (i : ℕ) : NostrEventHandler :=
  { s with tasks := s.tasks.set i .finished, dispatch_slots := s.dispatch_slots + 1 }

/-- What the task does after its call has moved: it ends when `handle_event` returned no event. -/
def afterCall (s : NostrEventHandler) (i c : ℕ) : NostrEventHandler :=
  match s.signed_jobs.calls[c]? with
  | some ⟨_, .returned⟩ => s.finish i
  | _ => s

/-- The call of a task in `handle_event` moves. -/
def move (P : Setup) (s : NostrEventHandler) (i c : ℕ) (l : SignedJobHandler.Label) :
    Option NostrEventHandler :=
  (s.signed_jobs.step P l).map fun handler => (s.setJobs handler).afterCall i c

/-- One notification, or one step of one task. -/
def step (P : Setup) (s : NostrEventHandler) : Label → Option NostrEventHandler
  | .notification event =>
    if s.dispatch_slots = 0 then some s
    else some { s with
      dispatch_slots := s.dispatch_slots - 1
      tasks := s.tasks ++ [.spawned event] }
  | .handle i now =>
    match s.tasks[i]? with
    | some (.spawned event) =>
      (s.signed_jobs.step P (.deliver event now)).map fun handler =>
        match parseRequestEvent P.L event now with
        | .error _ => (s.setJobs handler).finish i
        | .ok request =>
          match s.signed_jobs.completed.get request.id with
          | some completed => (s.setJobs handler).setTask i (.sending completed)
          | none =>
            (s.setJobs handler).setTask i (.handling s.signed_jobs.calls.length)
    | _ => none
  | .claim i =>
    match s.tasks[i]? with
    | some (.handling c) => s.move P i c (.claim c)
    | _ => none
  | .complete i answers t =>
    match s.tasks[i]? with
    | some (.handling c) => s.move P i c (.complete c answers t)
    | _ => none
  | .remember i =>
    match s.tasks[i]? with
    | some (.handling c) =>
      match s.signed_jobs.calls[c]? with
      | some ⟨_, .signed event⟩ =>
        (s.signed_jobs.step P (.remember c)).map fun handler =>
          (s.setJobs handler).setTask i (.sending event)
      | _ => none
    | _ => none
  | .send i =>
    match s.tasks[i]? with
    | some (.sending e) => some ({ s with sent := s.sent ++ [e] }.finish i)
    | _ => none

/-! ### What a step does -/

/-- Everything that a step can do: the intake, and the tasks with the moves of the handler. -/
inductive Moves (P : Setup) (s : NostrEventHandler) : Label → NostrEventHandler → Prop
  | dropped {event : Event} (hfull : s.dispatch_slots = 0) : Moves P s (.notification event) s
  | spawned {event : Event} (hfree : 0 < s.dispatch_slots) :
      Moves P s (.notification event) { s with
        dispatch_slots := s.dispatch_slots - 1
        tasks := s.tasks ++ [.spawned event] }
  | rejected {i now : ℕ} {event : Event} (htask : s.tasks[i]? = some (.spawned event)) :
      Moves P s (.handle i now) (s.finish i)
  | replayed {i now : ℕ} {event completed : Event} {handler : SignedJobHandler}
      (htask : s.tasks[i]? = some (.spawned event))
      (hstep : SignedJobHandler.step P s.signed_jobs (.deliver event now) = some handler)
      (hcalls : handler.calls = s.signed_jobs.calls) (id : Text)
      (hlog : handler.log = s.signed_jobs.log ++ [.delivered id, .returned id (some completed)]) :
      Moves P s (.handle i now) ((s.setJobs handler).setTask i (.sending completed))
  | lookedUp {i now : ℕ} {event : Event} {handler : SignedJobHandler}
      (htask : s.tasks[i]? = some (.spawned event))
      (hstep : SignedJobHandler.step P s.signed_jobs (.deliver event now) = some handler)
      (request : JobRequest)
      (hcalls : handler.calls = s.signed_jobs.calls ++ [⟨request, .lookedUp⟩])
      (hlog : handler.log = s.signed_jobs.log ++ [.delivered request.id]) :
      Moves P s (.handle i now)
        ((s.setJobs handler).setTask i (.handling s.signed_jobs.calls.length))
  | continued {i c : ℕ} {l : Label} {m : SignedJobHandler.Label} {handler : SignedJobHandler}
      {seen : List Observation} {request : JobRequest} {old phase : Phase}
      (htask : s.tasks[i]? = some (.handling c))
      (hstep : SignedJobHandler.step P s.signed_jobs m = some handler)
      (hcall : s.signed_jobs.calls[c]? = some ⟨request, old⟩) (hold : old ≠ .returned)
      (hphase : phase ≠ .returned) (hleft : phase.left < old.left)
      (hcalls : handler.calls = s.signed_jobs.calls.set c ⟨request, phase⟩)
      (hlog : handler.log = s.signed_jobs.log ++ seen)
      (hseen : seen.filterMap Observation.event = []) : Moves P s l (s.setJobs handler)
  | ended {i c : ℕ} {l : Label} {m : SignedJobHandler.Label} {handler : SignedJobHandler}
      {seen : List Observation} {request : JobRequest} {old : Phase}
      (htask : s.tasks[i]? = some (.handling c))
      (hstep : SignedJobHandler.step P s.signed_jobs m = some handler)
      (hcall : s.signed_jobs.calls[c]? = some ⟨request, old⟩) (hold : old ≠ .returned)
      (hcalls : handler.calls = s.signed_jobs.calls.set c ⟨request, .returned⟩)
      (hlog : handler.log = s.signed_jobs.log ++ seen)
      (hseen : seen.filterMap Observation.event = []) :
      Moves P s l ((s.setJobs handler).finish i)
  | answered {i c : ℕ} {handler : SignedJobHandler} {request : JobRequest} {event : Event}
      (htask : s.tasks[i]? = some (.handling c))
      (hstep : SignedJobHandler.step P s.signed_jobs (.remember c) = some handler)
      (hcall : s.signed_jobs.calls[c]? = some ⟨request, .signed event⟩)
      (hcalls : handler.calls = s.signed_jobs.calls.set c ⟨request, .returned⟩)
      (hlog : handler.log = s.signed_jobs.log ++ [.returned request.id (some event)]) :
      Moves P s (.remember i) ((s.setJobs handler).setTask i (.sending event))
  | sent {i : ℕ} {event : Event} (htask : s.tasks[i]? = some (.sending event)) :
      Moves P s (.send i) (finish { s with sent := s.sent ++ [event] } i)

variable {P : Setup} {s s' : NostrEventHandler} {i c : ℕ} {handler : SignedJobHandler}

/-- A call that has not returned keeps its task in the handler. -/
theorem afterCall_of_unreturned {request : JobRequest} {phase : Phase}
    (hcall : s.signed_jobs.calls[c]? = some ⟨request, phase⟩) (hphase : phase ≠ .returned) :
    s.afterCall i c = s := by
  rw [afterCall, hcall]
  cases phase with
  | returned => exact absurd rfl hphase
  | _ => rfl

theorem afterCall_of_returned {request : JobRequest}
    (hcall : s.signed_jobs.calls[c]? = some ⟨request, .returned⟩) : s.afterCall i c = s.finish i := by
  rw [afterCall, hcall]

/-- The call that a task is in moves, short of returning an event. -/
theorem moves_of_move {l : Label} {m : SignedJobHandler.Label} {request : JobRequest}
    {old phase : Phase} {seen : List Observation} (htask : s.tasks[i]? = some (.handling c))
    (hstep : SignedJobHandler.step P s.signed_jobs m = some handler)
    (hcall : s.signed_jobs.calls[c]? = some ⟨request, old⟩) (hleft : phase.left < old.left)
    (hcalls : handler.calls = s.signed_jobs.calls.set c ⟨request, phase⟩)
    (hlog : handler.log = s.signed_jobs.log ++ seen) (hseen : seen.filterMap Observation.event = []) :
    Moves P s l ((s.setJobs handler).afterCall i c) := by
  have hget : (s.setJobs handler).signed_jobs.calls[c]? = some ⟨request, phase⟩ := by
    change handler.calls[c]? = _
    rw [hcalls, List.getElem?_set_self (List.getElem?_eq_some_iff.mp hcall).1]
  have hold : old ≠ .returned := by
    rintro rfl
    exact absurd hleft (Nat.not_lt_zero _)
  by_cases hphase : phase = .returned
  · subst hphase
    rw [afterCall_of_returned hget]
    exact .ended htask hstep hcall hold hcalls hlog hseen
  · rw [afterCall_of_unreturned hget hphase]
    exact .continued htask hstep hcall hold hphase hleft hcalls hlog hseen

theorem moves_of_step : ∀ {l : Label}, step P s l = some s' → Moves P s l s'
  | .notification event, h => by
    rw [step] at h
    split at h
    · rename_i hfull
      cases h; exact .dropped hfull
    · rename_i hfree
      cases h; exact .spawned (Nat.pos_of_ne_zero hfree)
  | .handle i now, h => by
    rw [step] at h
    split at h
    · rename_i event htask
      obtain ⟨handler, hhandler, h⟩ := Option.map_eq_some_iff.mp h
      have hstep := hhandler
      rw [SignedJobHandler.step] at hhandler
      split at hhandler
      · rename_i hparse
        obtain rfl := Option.some.inj hhandler
        simp only [hparse] at h
        subst h
        exact .rejected htask
      · rename_i request hparse
        simp only [hparse] at h
        split at hhandler
        · rename_i completed hget
          obtain rfl := Option.some.inj hhandler
          simp only [hget] at h
          subst h
          exact .replayed htask hstep rfl request.id rfl
        · rename_i hget
          obtain rfl := Option.some.inj hhandler
          simp only [hget] at h
          subst h
          exact .lookedUp htask hstep request rfl rfl
    · cases h
  | .claim i, h => by
    rw [step] at h
    split at h
    · rename_i c htask
      obtain ⟨handler, hhandler, rfl⟩ := Option.map_eq_some_iff.mp h
      cases SignedJobHandler.moves_of_step hhandler with
      | duplicate hcall hid =>
        exact moves_of_move htask hhandler hcall (by simp [Phase.left]) rfl rfl rfl
      | claimed hcall hid =>
        exact moves_of_move htask hhandler hcall (by simp [Phase.left]) rfl rfl rfl
    · cases h
  | .complete i answers t, h => by
    rw [step] at h
    split at h
    · rename_i c htask
      obtain ⟨handler, hhandler, rfl⟩ := Option.map_eq_some_iff.mp h
      cases SignedJobHandler.moves_of_step hhandler with
      | failed hcall hresult =>
        exact moves_of_move htask hhandler hcall (by simp [Phase.left]) rfl rfl rfl
      | signed hcall hresult =>
        exact moves_of_move htask hhandler hcall (by simp [Phase.left]) rfl rfl rfl
    · cases h
  | .remember i, h => by
    rw [step] at h
    split at h
    · rename_i c htask
      split at h
      · rename_i request event hcall
        obtain ⟨handler, hhandler, rfl⟩ := Option.map_eq_some_iff.mp h
        cases SignedJobHandler.moves_of_step hhandler with
        | remembered hcall' =>
          cases hcall.symm.trans hcall'
          exact .answered htask hhandler hcall rfl rfl
      · cases h
    · cases h
  | .send i, h => by
    rw [step] at h
    split at h
    · rename_i event htask
      cases h; exact .sent htask
    · cases h

/-! ### Permits, calls and results -/

/-- Every dispatch slot is free or held by a task; the calls in progress are those of the tasks in the
    handler, one each; and what was sent and is being sent is what `handle_event` has returned. -/
structure Wired (s : NostrEventHandler) : Prop where
  permits : Conserved DispatchTask.holdsPermit maxInflightEvents s.dispatch_slots s.tasks
  calls : ∀ i c : ℕ, s.tasks[i]? = some (.handling c) → ∃ request phase,
    s.signed_jobs.calls[c]? = some ⟨request, phase⟩ ∧ phase ≠ .returned
  alone : ∀ i j c : ℕ, s.tasks[i]? = some (.handling c) → s.tasks[j]? = some (.handling c) → i = j
  inProgress : s.signed_jobs.inProgress = s.tasks.countP DispatchTask.inHandler
  results : (s.sent ++ s.tasks.filterMap DispatchTask.result).Perm
    (s.signed_jobs.log.filterMap Observation.event)

theorem wired_new : new.Wired where
  permits := conserved_nil
  calls _ _ h := by cases h
  alone _ _ _ h := by cases h
  inProgress := rfl
  results := List.Perm.refl _

/-- The calls in progress when one call moves. -/
theorem inProgress_set {calls : List Call} {request : JobRequest} {old : Phase}
    (hcall : calls[c]? = some ⟨request, old⟩) (hold : old ≠ .returned) (phase : Phase) :
    (calls.set c ⟨request, phase⟩).countP (fun c => c.phase ≠ .returned) + 1 =
      calls.countP (fun c => c.phase ≠ .returned) + (if phase = .returned then 0 else 1) := by
  have hcount := countP_set (p := fun c : Call => decide (c.phase ≠ .returned))
    (b := ⟨request, phase⟩) hcall
  simp only [hold, ne_eq, not_false_eq_true, decide_true, if_true, decide_not, Bool.not_eq_true',
    decide_eq_false_iff_not] at hcount ⊢
  rw [hcount]
  split <;> simp_all

/-- A task that is not in the handler moves to another such place, or ends; the handler sees only an
    event that is replayed to the task. -/
theorem Wired.outside (h : s.Wired) {old task : DispatchTask} {slots : ℕ} {sent : List Event}
    {log : List Observation} {dedupe : RequestDeduplicator} {completed : CompletedResults}
    (htask : s.tasks[i]? = some old) (hold : old.inHandler = false) (hnew : task.inHandler = false)
    (hpermits : Conserved DispatchTask.holdsPermit maxInflightEvents slots (s.tasks.set i task))
    (hresults : (sent ++ (s.tasks.set i task).filterMap DispatchTask.result).Perm
      (log.filterMap Observation.event)) :
    Wired ⟨⟨dedupe, completed, s.signed_jobs.calls, log⟩, slots, s.tasks.set i task, sent⟩ := by
  have hhandling : ∀ {j c : ℕ}, (s.tasks.set i task)[j]? = some (.handling c) →
      s.tasks[j]? = some (.handling c) := by
    intro j c hj
    rcases (getElem?_set_eq_some htask).mp hj with ⟨-, rfl⟩ | ⟨-, hj⟩
    · cases hnew
    · exact hj
  refine ⟨hpermits, fun j c hj => h.calls j c (hhandling hj),
    fun j k c hj hk => h.alone j k c (hhandling hj) (hhandling hk), ?_, hresults⟩
  have hcount := countP_set (p := DispatchTask.inHandler) (b := task) htask
  rw [hold, hnew] at hcount
  exact h.inProgress.trans (Nat.add_right_cancel hcount).symm

/-- The results after a task has moved on. -/
theorem results_set {old : DispatchTask} {log : List Observation} (htask : s.tasks[i]? = some old)
    (h : (s.sent ++ s.tasks.filterMap DispatchTask.result).Perm (log.filterMap Observation.event))
    (task : DispatchTask) (sent : List Event) (seen : List Observation)
    (hmoved : (sent ++ task.result.toList).Perm
      (s.sent ++ old.result.toList ++ seen.filterMap Observation.event)) :
    (sent ++ (s.tasks.set i task).filterMap DispatchTask.result).Perm
      ((log ++ seen).filterMap Observation.event) := by
  have hset := perm_filterMap_set (f := DispatchTask.result) (b := task) htask
  rw [List.filterMap_append]
  rw [List.perm_iff_count] at h hset hmoved ⊢
  intro e
  have h₁ := h e
  have h₂ := hset e
  have h₃ := hmoved e
  simp only [List.count_append] at h₁ h₂ h₃ ⊢
  omega

/-- A task leaves the handler as its call returns. -/
theorem Wired.leaves (h : s.Wired) {request : JobRequest} {old : Phase} {task : DispatchTask}
    {slots : ℕ} {sent : List Event} {log : List Observation} {dedupe : RequestDeduplicator}
    {completed : CompletedResults} (htask : s.tasks[i]? = some (.handling c))
    (hcall : s.signed_jobs.calls[c]? = some ⟨request, old⟩) (hold : old ≠ .returned)
    (hnew : task.inHandler = false)
    (hpermits : Conserved DispatchTask.holdsPermit maxInflightEvents slots (s.tasks.set i task))
    (hresults : (sent ++ (s.tasks.set i task).filterMap DispatchTask.result).Perm
      (log.filterMap Observation.event)) :
    Wired ⟨⟨dedupe, completed, s.signed_jobs.calls.set c ⟨request, .returned⟩, log⟩, slots,
      s.tasks.set i task, sent⟩ := by
  have hhandling : ∀ {j d : ℕ}, (s.tasks.set i task)[j]? = some (.handling d) →
      i ≠ j ∧ s.tasks[j]? = some (.handling d) := by
    intro j d hj
    rcases (getElem?_set_eq_some htask).mp hj with ⟨-, rfl⟩ | hj
    · cases hnew
    · exact hj
  refine ⟨hpermits, ?_, fun j k d hj hk => h.alone j k d (hhandling hj).2 (hhandling hk).2, ?_,
    hresults⟩
  · intro j d hj
    obtain ⟨hne, hj⟩ := hhandling hj
    obtain ⟨r, phase, hd, hphase⟩ := h.calls j d hj
    have hcd : c ≠ d := by
      rintro rfl
      exact hne (h.alone i j c htask hj)
    exact ⟨r, phase, (getElem?_set_eq_some hcall).mpr (Or.inr ⟨hcd, hd⟩), hphase⟩
  · have hcalls := inProgress_set hcall hold .returned
    have htasks := countP_set (p := DispatchTask.inHandler) (b := task) htask
    have hbefore := h.inProgress
    have hin : (DispatchTask.handling c).inHandler = true := rfl
    simp only [SignedJobHandler.inProgress, hnew, hin, if_true, Bool.false_eq_true, if_false]
      at hcalls htasks hbefore ⊢
    omega

theorem wired_moves {l : Label} (h : s.Wired) (hm : Moves P s l s') : s'.Wired := by
  cases hm with
  | dropped hfull => exact h
  | spawned hfree =>
    have hget : ∀ {j d : ℕ} {event : Event},
        (s.tasks ++ [.spawned event])[j]? = some (.handling d) → s.tasks[j]? = some (.handling d) := by
      intro j d event hj
      rw [List.getElem?_append] at hj
      split at hj
      · exact hj
      · cases List.mem_singleton.mp (List.mem_of_getElem? hj)
    refine ⟨h.permits.acquire hfree rfl, fun j d hj => h.calls j d (hget hj),
      fun j k d hj hk => h.alone j k d (hget hj) (hget hk), ?_, ?_⟩
    · rw [List.countP_append]
      exact h.inProgress
    · rw [List.filterMap_append]
      exact (List.append_nil _).symm ▸ h.results
  | @rejected i now event htask =>
    refine h.outside htask rfl rfl (h.permits.release htask rfl rfl) ?_
    have hresults := results_set htask h.results .finished s.sent [] (by simp [DispatchTask.result])
    rwa [List.append_nil] at hresults
  | @replayed i now event completed handler htask hstep hcalls id hlog =>
    obtain ⟨dedupe, cache, calls, log⟩ := handler
    obtain rfl : calls = _ := hcalls
    obtain rfl : log = _ := hlog
    exact h.outside htask rfl rfl (h.permits.keep htask rfl)
      (results_set htask h.results (.sending completed) s.sent
        [.delivered id, .returned id (some completed)]
        (by simp [DispatchTask.result, Observation.event, List.filterMap_cons]))
  | @lookedUp i now event handler htask hstep request hcalls hlog =>
    obtain ⟨dedupe, cache, calls, log⟩ := handler
    obtain rfl : calls = _ := hcalls
    obtain rfl : log = _ := hlog
    have hget : ∀ {j d : ℕ}, (s.tasks.set i (.handling s.signed_jobs.calls.length))[j]? =
        some (.handling d) → i = j ∧ d = s.signed_jobs.calls.length ∨
          i ≠ j ∧ s.tasks[j]? = some (.handling d) ∧ d < s.signed_jobs.calls.length := by
      intro j d hj
      rcases (getElem?_set_eq_some htask).mp hj with ⟨hij, heq⟩ | ⟨hij, hj⟩
      · cases heq
        exact Or.inl ⟨hij, rfl⟩
      · obtain ⟨r, phase, hd, -⟩ := h.calls j d hj
        exact Or.inr ⟨hij, hj, (List.getElem?_eq_some_iff.mp hd).1⟩
    refine ⟨h.permits.keep htask rfl, ?_, ?_, ?_,
      results_set htask h.results (.handling s.signed_jobs.calls.length) s.sent
        [.delivered request.id] (by simp [DispatchTask.result, Observation.event, List.filterMap_cons])⟩
    · intro j d hj
      rcases hget hj with ⟨-, rfl⟩ | ⟨-, hj, hlt⟩
      · exact ⟨request, .lookedUp, by simp [setTask, setJobs], by simp⟩
      · obtain ⟨r, phase, hd, hphase⟩ := h.calls j d hj
        exact ⟨r, phase, (List.getElem?_append_left hlt).trans hd, hphase⟩
    · intro j k d hj hk
      rcases hget hj with ⟨rfl, rfl⟩ | ⟨-, hj, hlt⟩
      · rcases hget hk with ⟨hik, -⟩ | ⟨-, -, hlt⟩
        · exact hik
        · omega
      · rcases hget hk with ⟨-, rfl⟩ | ⟨-, hk, -⟩
        · omega
        · exact h.alone j k d hj hk
    · have htasks := countP_set (p := DispatchTask.inHandler)
        (b := .handling s.signed_jobs.calls.length) htask
      have hbefore := h.inProgress
      simp only [SignedJobHandler.inProgress, setTask, setJobs, List.countP_append,
        DispatchTask.inHandler, if_true, Bool.false_eq_true, if_false, Nat.add_zero] at htasks hbefore ⊢
      rw [htasks, hbefore]
      rfl
  | @continued i c l m handler seen request old phase htask hstep hcall hold hphase hleft hcalls hlog
      hseen =>
    obtain ⟨dedupe, cache, calls, log⟩ := handler
    obtain rfl : calls = _ := hcalls
    obtain rfl : log = _ := hlog
    refine ⟨h.permits, ?_, h.alone, ?_, ?_⟩
    · intro j d hj
      obtain ⟨r, p, hd, hp⟩ := h.calls j d hj
      by_cases hcd : c = d
      · subst hcd
        exact ⟨request, phase, (getElem?_set_eq_some hcall).mpr (Or.inl ⟨rfl, rfl⟩), hphase⟩
      · exact ⟨r, p, (getElem?_set_eq_some hcall).mpr (Or.inr ⟨hcd, hd⟩), hp⟩
    · have hcount := inProgress_set hcall hold phase
      rw [if_neg hphase] at hcount
      exact (Nat.add_right_cancel hcount).trans h.inProgress
    · simp only [setJobs, List.filterMap_append, hseen, List.append_nil]
      exact h.results
  | @ended i c l m handler seen request old htask hstep hcall hold hcalls hlog hseen =>
    obtain ⟨dedupe, cache, calls, log⟩ := handler
    obtain rfl : calls = _ := hcalls
    obtain rfl : log = _ := hlog
    exact h.leaves htask hcall hold rfl (h.permits.release htask rfl rfl)
      (results_set htask h.results .finished s.sent seen (by simp [DispatchTask.result, hseen]))
  | @answered i c handler request event htask hstep hcall hcalls hlog =>
    obtain ⟨dedupe, cache, calls, log⟩ := handler
    obtain rfl : calls = _ := hcalls
    obtain rfl : log = _ := hlog
    exact h.leaves htask hcall (by simp) rfl (h.permits.keep htask rfl)
      (results_set htask h.results (.sending event) s.sent [.returned request.id (some event)]
        (by simp [DispatchTask.result, Observation.event]))
  | @sent i event htask =>
    refine h.outside htask rfl rfl (h.permits.release htask rfl rfl) ?_
    have hresults := results_set htask h.results .finished (s.sent ++ [event]) []
      (by simp [DispatchTask.result])
    rwa [List.append_nil] at hresults

theorem wired_visits {ls : List Label} (hs : Visits (step P) new ls s) : s.Wired :=
  hs.invariant wired_new fun _ _ _ ht h => wired_moves h (moves_of_step ht.enabled)

/-! ### Every run -/

/-- The handler of the intake is in a state that the handler alone can reach. -/
theorem handler_moves {l : Label} {ms : List SignedJobHandler.Label}
    (h : exec (SignedJobHandler.step P) (.new maxDedupeEntries) ms = some s.signed_jobs)
    (hm : Moves P s l s') :
    ∃ ms', exec (SignedJobHandler.step P) (.new maxDedupeEntries) ms' = some s'.signed_jobs := by
  cases hm with
  | dropped | spawned | rejected | sent => exact ⟨ms, h⟩
  | replayed htask hstep | lookedUp htask hstep | continued htask hstep | ended htask hstep
  | answered htask hstep => exact ⟨_, exec_concat.mpr ⟨_, h, hstep⟩⟩

/-- In every run of the intake no more than 64 requests are handled at once, the handler does what it
    can do alone with its claim set of 10000, and every event that it returned is sent once. -/
theorem intake_refines_handler {P : Setup} {ls : List Label}
    (hs : exec (step P) new ls = some s) :
    s.dispatch_slots + s.tasks.countP DispatchTask.holdsPermit = 64 ∧
      s.signed_jobs.inProgress ≤ 64 ∧
      (∃ ms, exec (SignedJobHandler.step P) (.new 10000) ms = some s.signed_jobs) ∧
      (s.sent ++ s.tasks.filterMap DispatchTask.result).Perm
        (s.signed_jobs.log.filterMap Observation.event) := by
  have hvisits : Visits (step P) new ls s := Visits.last hs
  have hwired := wired_visits hvisits
  have hhandler : ∃ ms,
      exec (SignedJobHandler.step P) (.new maxDedupeEntries) ms = some s.signed_jobs := by
    refine hvisits.invariant (I := fun m : NostrEventHandler =>
      ∃ ms, exec (SignedJobHandler.step P) (.new maxDedupeEntries) ms = some m.signed_jobs)
      ⟨[], rfl⟩ ?_
    rintro m l m' ht ⟨ms, hms⟩
    exact handler_moves hms (moves_of_step ht.enabled)
  refine ⟨hwired.permits, ?_, hhandler, hwired.results⟩
  have hholds : s.tasks.countP DispatchTask.inHandler ≤ s.tasks.countP DispatchTask.holdsPermit := by
    refine List.countP_mono_left fun task _ htask => ?_
    cases task with
    | handling c => rfl
    | _ => cases htask
  have hpermits : s.dispatch_slots + s.tasks.countP DispatchTask.holdsPermit = 64 := hwired.permits
  have hin := hwired.inProgress
  omega

/-- The intake with one task. -/
def oneTask (handler : SignedJobHandler) (task : DispatchTask) : NostrEventHandler :=
  ⟨handler, 63, [task], []⟩

/-- The signed request is handled by a busy provider, and its error result is sent. -/
theorem golden_dispatched : ∃ s : NostrEventHandler,
    exec (step SignedJobHandler.floodSetup) (oneTask (.new maxDedupeEntries) (.spawned goldenRequest))
      [.handle 0 1900000005, .claim 0, .complete 0 busyAnswers 1900000006, .remember 0, .send 0] =
        some s ∧ s.dispatch_slots = 64 := by
  have hparse : parseRequestEvent SignedJobHandler.floodSetup.L goldenRequest 1900000005 =
      .ok goldenJob := SignedJobHandler.floodSetup_parse (List.mem_cons_self ..)
  obtain ⟨e, hresult⟩ :=
    SignedJobHandler.floodSetup_busy (by decide : goldenRequest.id.length = 64)
  let handled := (SignedJobHandler.new maxDedupeEntries).handled goldenJob e
  have hdeliver : SignedJobHandler.step SignedJobHandler.floodSetup (.new maxDedupeEntries)
      (.deliver goldenRequest 1900000005) = some (handled 0) :=
    SignedJobHandler.step_deliver hparse rfl
  have hclaim : SignedJobHandler.step SignedJobHandler.floodSetup (handled 0) (.claim 0) =
      some (handled 1) := SignedJobHandler.step_claim (Finset.notMem_empty _)
  have hcomplete : SignedJobHandler.step SignedJobHandler.floodSetup (handled 1)
      (.complete 0 busyAnswers 1900000006) = some (handled 2) :=
    SignedJobHandler.step_complete hresult
  have hremember : SignedJobHandler.step SignedJobHandler.floodSetup (handled 2) (.remember 0) =
      some (handled 3) := SignedJobHandler.step_remember
  have h₀ : step SignedJobHandler.floodSetup (oneTask (.new maxDedupeEntries) (.spawned goldenRequest))
      (.handle 0 1900000005) = some (oneTask (handled 0) (.handling 0)) := by
    rw [step]
    simp only [oneTask, List.getElem?_cons_zero, hdeliver, Option.map_some, hparse]
    rfl
  have h₁ : step SignedJobHandler.floodSetup (oneTask (handled 0) (.handling 0)) (.claim 0) =
      some (oneTask (handled 1) (.handling 0)) := by
    rw [step]
    simp only [oneTask, List.getElem?_cons_zero, move, hclaim]
    rfl
  have h₂ : step SignedJobHandler.floodSetup (oneTask (handled 1) (.handling 0))
      (.complete 0 busyAnswers 1900000006) = some (oneTask (handled 2) (.handling 0)) := by
    rw [step]
    simp only [oneTask, List.getElem?_cons_zero, move, hcomplete]
    rfl
  have h₃ : step SignedJobHandler.floodSetup (oneTask (handled 2) (.handling 0)) (.remember 0) =
      some (oneTask (handled 3) (.sending e)) := by
    have hcall : (handled 2).calls[0]? = some ⟨goldenJob, .signed e⟩ := rfl
    rw [step]
    simp only [oneTask, List.getElem?_cons_zero, hcall, hremember]
    rfl
  refine ⟨⟨handled 3, 64, [.finished], [e]⟩, ?_, rfl⟩
  rw [exec_cons h₀, exec_cons h₁, exec_cons h₂, exec_cons h₃]
  rfl

theorem golden_refines : ∃ (ls : List Label) (s : NostrEventHandler),
    exec (step SignedJobHandler.floodSetup) new (.notification goldenRequest :: ls) = some s ∧
      s.signed_jobs.inProgress ≤ 64 ∧ (s.sent ++ s.tasks.filterMap DispatchTask.result).Perm
        (s.signed_jobs.log.filterMap Observation.event) := by
  obtain ⟨s, hrun, -⟩ := golden_dispatched
  have hall : exec (step SignedJobHandler.floodSetup) new (.notification goldenRequest ::
      [.handle 0 1900000005, .claim 0, .complete 0 busyAnswers 1900000006, .remember 0, .send 0]) =
        some s := by
    have hstart : step SignedJobHandler.floodSetup new (.notification goldenRequest) =
        some (oneTask (.new maxDedupeEntries) (.spawned goldenRequest)) := rfl
    rw [exec_cons hstart]
    exact hrun
  exact ⟨_, s, hall, (intake_refines_handler hall).2.1, (intake_refines_handler hall).2.2.2⟩

/-! ### No task is stuck -/

/-- A label of a task, not of the relay pool. -/
def Label.ofTask : Label → Bool
  | .notification _ => false
  | _ => true

/-- The steps that a task can still take outside the handler. -/
def taskLeft : DispatchTask → ℕ
  | .spawned _ => 5
  | .sending _ => 1
  | .handling _ | .finished => 0

/-- The steps that can still be taken when nothing is notified any more. -/
def left (s : NostrEventHandler) : ℕ :=
  (s.tasks.map taskLeft).sum + (s.signed_jobs.calls.map fun c => c.phase.left).sum

/-- A task moves on outside the handler. -/
theorem left_set_task {old : DispatchTask} (task : DispatchTask) (htask : s.tasks[i]? = some old)
    (hless : taskLeft task < taskLeft old) :
    ((s.tasks.set i task).map taskLeft).sum < (s.tasks.map taskLeft).sum := by
  have hset := sum_map_set (w := taskLeft) (b := task) htask
  omega

/-- Every step of a task uses some of it up. -/
theorem left_lt_of_moves {l : Label} (hl : l.ofTask = true) (hm : Moves P s l s') :
    s'.left < s.left := by
  cases hm with
  | dropped hfull => cases hl
  | spawned hfree => cases hl
  | rejected htask | sent htask =>
    exact Nat.add_lt_add_right (left_set_task .finished htask (by simp [taskLeft])) _
  | @replayed i now event completed handler htask hstep hcalls id hlog =>
    obtain ⟨dedupe, cache, calls, log⟩ := handler
    obtain rfl : calls = _ := hcalls
    exact Nat.add_lt_add_right (left_set_task (.sending completed) htask (by simp [taskLeft])) _
  | @lookedUp i now event handler htask hstep request hcalls hlog =>
    obtain ⟨dedupe, cache, calls, log⟩ := handler
    obtain rfl : calls = _ := hcalls
    have htasks := sum_map_set (w := taskLeft) (b := .handling s.signed_jobs.calls.length) htask
    simp only [left, setTask, setJobs, List.map_append, List.sum_append, List.map_cons,
      List.map_nil, List.sum_cons, List.sum_nil, taskLeft, Phase.left] at htasks ⊢
    omega
  | @continued i c l m handler seen request old phase htask hstep hcall hold hphase hleft hcalls
      hlog hseen =>
    obtain ⟨dedupe, cache, calls, log⟩ := handler
    obtain rfl : calls = _ := hcalls
    have hset := sum_map_set (w := fun c : Call => c.phase.left) (b := ⟨request, phase⟩) hcall
    simp only [left, setJobs] at hset ⊢
    omega
  | @ended i c l m handler seen request old htask hstep hcall hold hcalls hlog hseen =>
    obtain ⟨dedupe, cache, calls, log⟩ := handler
    obtain rfl : calls = _ := hcalls
    have hset := sum_map_set (w := fun c : Call => c.phase.left) (b := ⟨request, .returned⟩) hcall
    have htasks := sum_map_set (w := taskLeft) (b := .finished) htask
    have hpos := Phase.left_pos hold
    have hreturned : Phase.returned.left = 0 := rfl
    simp only [left, setJobs, finish, taskLeft] at hset htasks ⊢
    omega
  | @answered i c handler request event htask hstep hcall hcalls hlog =>
    obtain ⟨dedupe, cache, calls, log⟩ := handler
    obtain rfl : calls = _ := hcalls
    have hset := sum_map_set (w := fun c : Call => c.phase.left) (b := ⟨request, .returned⟩) hcall
    have htasks := sum_map_set (w := taskLeft) (b := .sending event) htask
    simp only [left, setJobs, setTask, taskLeft, Phase.left] at hset htasks ⊢
    omega

/-- What is left is at most five steps for each taken slot. -/
theorem Wired.left_le (h : s.Wired) :
    s.left ≤ 5 * s.tasks.countP DispatchTask.holdsPermit := by
  have hcalls : ∀ calls : List Call, (calls.map fun c => c.phase.left).sum ≤
      4 * calls.countP fun c => c.phase ≠ .returned := by
    intro calls
    induction calls with
    | nil => rfl
    | cons c calls ih =>
      obtain ⟨request, phase⟩ := c
      rw [List.map_cons, List.sum_cons, List.countP_cons]
      cases phase <;> simp [Phase.left] at ih ⊢ <;> omega
  have htasks : ∀ tasks : List DispatchTask, (tasks.map taskLeft).sum +
      5 * tasks.countP DispatchTask.inHandler ≤ 5 * tasks.countP DispatchTask.holdsPermit := by
    intro tasks
    induction tasks with
    | nil => rfl
    | cons task tasks ih =>
      rw [List.map_cons, List.sum_cons, List.countP_cons, List.countP_cons]
      cases task <;> simp [taskLeft, DispatchTask.inHandler, DispatchTask.holdsPermit] <;> omega
  have hin := h.inProgress
  have hcalls := hcalls s.signed_jobs.calls
  have htasks := htasks s.tasks
  simp only [SignedJobHandler.inProgress, left] at hin ⊢
  omega

/-- A task that holds a permit can take a step. -/
theorem Wired.enabled (h : s.Wired) (P : Setup) {task : DispatchTask}
    (htask : s.tasks[i]? = some task) (hpermit : task.holdsPermit = true) :
    ∃ l : Label, l.ofTask = true ∧ (step P s l).isSome = true := by
  cases task with
  | spawned event =>
    refine ⟨.handle i 0, rfl, ?_⟩
    rw [step, htask]
    cases hparse : parseRequestEvent P.L event 0 with
    | error e => simp only [SignedJobHandler.step, hparse]; rfl
    | ok request =>
      simp only [SignedJobHandler.step, hparse]
      cases s.signed_jobs.completed.get request.id with
      | none => rfl
      | some completed => rfl
  | handling c =>
    obtain ⟨request, phase, hcall, hphase⟩ := h.calls i c htask
    cases phase with
    | lookedUp =>
      refine ⟨.claim i, rfl, ?_⟩
      rw [step, htask]
      simp only [move, SignedJobHandler.step, hcall]
      split <;> rfl
    | processing =>
      refine ⟨.complete i busyAnswers 0, rfl, ?_⟩
      rw [step, htask]
      simp only [move, SignedJobHandler.step, hcall]
      split <;> rfl
    | signed event =>
      refine ⟨.remember i, rfl, ?_⟩
      simp only [step, htask, hcall, SignedJobHandler.step]
      rfl
    | returned => exact absurd rfl hphase
  | sending event =>
    refine ⟨.send i, rfl, ?_⟩
    rw [step, htask]
    rfl
  | finished => cases hpermit

/-- With no more notifications the tasks take at most five steps for each taken slot, and when no task
    can take a step all 64 slots are free and nothing is left to be sent. -/
theorem intake_drains {P : Setup} {ls more : List Label} {s' : NostrEventHandler}
    (hs : exec (step P) new ls = some s) (htasks : ∀ l ∈ more, l.ofTask = true)
    (hmore : exec (step P) s more = some s') :
    more.length ≤ 5 * (64 - s.dispatch_slots) ∧
      ((∀ l : Label, l.ofTask = true → step P s' l = none) →
        s'.dispatch_slots = 64 ∧ s'.sent.Perm (s'.signed_jobs.log.filterMap Observation.event)) := by
  have hwired : s.Wired := wired_visits (Visits.last hs)
  have hwired' : s'.Wired := by
    have hall : exec (step P) new (ls ++ more) = some s' := by
      rw [exec_append, hs]
      exact hmore
    exact wired_visits (Visits.last hall)
  have hlength : more.length + s'.left ≤ s.left :=
    length_add_le (p := fun l => l.ofTask = true)
      (fun _ _ _ hl h => left_lt_of_moves hl (moves_of_step h)) htasks hmore
  refine ⟨?_, fun hstuck => ?_⟩
  · have hleft := hwired.left_le
    have hpermits : s.dispatch_slots + s.tasks.countP DispatchTask.holdsPermit = 64 := hwired.permits
    omega
  · have hidle : ∀ task ∈ s'.tasks, task.holdsPermit = false := by
      intro task hmem
      obtain ⟨i, htask⟩ := List.mem_iff_getElem?.mp hmem
      by_contra hpermit
      obtain ⟨l, hl, hsome⟩ := hwired'.enabled P htask (Bool.of_not_eq_false hpermit)
      rw [hstuck l hl] at hsome
      cases hsome
    have hnone : s'.tasks.filterMap DispatchTask.result = [] := by
      refine List.filterMap_eq_nil_iff.mpr fun task hmem => ?_
      have hpermit := hidle task hmem
      cases task with
      | finished => rfl
      | _ => cases hpermit
    have hresults := hwired'.results
    rw [hnone, List.append_nil] at hresults
    exact ⟨hwired'.permits.all_free hidle, hresults⟩

theorem golden_drains : ∃ (more : List Label) (s' : NostrEventHandler),
    exec (step SignedJobHandler.floodSetup)
      (oneTask (.new maxDedupeEntries) (.spawned goldenRequest)) more = some s' ∧
      more.length ≤ 5 * (64 - 63) := by
  obtain ⟨s, hrun, -⟩ := golden_dispatched
  refine ⟨_, s, hrun, ?_⟩
  have hstart : exec (step SignedJobHandler.floodSetup) new [.notification goldenRequest] =
      some (oneTask (.new maxDedupeEntries) (.spawned goldenRequest)) := rfl
  exact (intake_drains hstart (by decide) hrun).1

end NostrEventHandler

end SoulSociety.Provider
