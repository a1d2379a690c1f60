import SoulSociety.Session.JobSession

/-! Where the data of an execution comes from. At every point the local variables of `run` passed the
    checks before that point: the request was signed from the template of this execution, the result
    was accepted for that request, the bytes were downloaded for that result. What an execution
    published, and what a verified snapshot holds, come from there. -/

namespace SoulSociety.Session
open Lib Sdk

variable {C : SoulNostrClient} {options : JobOptions} {input : JobInput} {t : ℕ}
  {log seen : List Observation} {p : Point} {a : Aborts} {o : Outcome}

/-- The request is the answer of the signer to the template made at the clock reading `t`. -/
def SignedAt (C : SoulNostrClient) (options : JobOptions) (input : JobInput) (t : ℕ)
    (request : ValidatedRequest) : Prop :=
  ∃ template answer now signed, requestTemplate options input t = .ok template ∧
    C.signer.signEvent template answer = .ok signed ∧
    validateRequestEvent C.platform signed now = .ok request

/-- A validated request is authentic. -/
theorem verified_of_validate {P : Platform} {event : Event} {now : ℕ} {request : ValidatedRequest}
    (h : validateRequestEvent P event now = .ok request) :
    request.event = event ∧ P.verifyEvent event = true := by
  simp only [validateRequestEvent, bind_eq_ok, rejectIf_eq_ok, orReject_eq_ok, pure_eq_ok,
    exists_unit, not_not] at h
  obtain ⟨hverify, _, -, -, -, _, -, -, _, -, _, -, -, -, _, -, _, -, -, rfl⟩ := h
  exact ⟨rfl, hverify⟩

theorem SignedAt.verified {request : ValidatedRequest} (h : SignedAt C options input t request) :
    C.platform.verifyEvent request.event = true := by
  obtain ⟨_, _, _, _, -, -, hvalid⟩ := h
  obtain ⟨rfl, hverify⟩ := verified_of_validate hvalid
  exact hverify

/-- The result comes from a trusted provider and was accepted for the request. -/
def AcceptedFor (C : SoulNostrClient) (request : ValidatedRequest) (result : ValidatedResult) : Prop :=
  ∃ event now, C.acceptsProvider event.pubkey = true ∧
    validateResultEvent C.platform event request now = .ok result

/-- The bytes have the size and the digest of the descriptor. -/
def Downloaded (C : SoulNostrClient) (result : SuccessfulResult) (proofBytes : ProofBytes) : Prop :=
  proofBytes.length = result.content.proof.byte_size ∧
    C.sha256 proofBytes = result.content.proof.sha256

/-- Some call of the verifier on the bytes, for the trusted program and the statement of the record,
    returned `true` and left the bytes of the record in the buffer. -/
def Accepted (C : SoulNostrClient) (log : List Observation) (proofBytes : ProofBytes)
    (job : VerifiedJob) : Prop :=
  ∃ j, .answered j proofBytes C.trustedProgramHash
    (serializeProofStatement job.result.content.statement) (some true) job.proofBytes ∈ log

/-- Everything that `run` has checked when it ends, where `proofBytes` are the bytes that it gave to
    the verifier. -/
structure Checked (C : SoulNostrClient) (options : JobOptions) (input : JobInput) (t : ℕ)
    (log : List Observation) (job : VerifiedJob) (proofBytes : ProofBytes) : Prop where
  signed : SignedAt C options input t job.request
  accepted : AcceptedFor C job.request job.result.toValidated
  trusted : job.result.content.proof.program_hash = C.trustedProgramHash
  downloaded : Downloaded C job.result proofBytes
  verified : Accepted C log proofBytes job

/-- What the local variables at a point have passed. -/
def Point.Holds (C : SoulNostrClient) (options : JobOptions) (input : JobInput) (t : ℕ)
    (log : List Observation) : Point → Prop
  | .publishing template | .signing template => requestTemplate options input t = .ok template
  | .requested request | .attempting request _ | .publish request _ | .publishDelay request _ _
  | .awaiting request => SignedAt C options input t request
  | .waiting request _ wait => SignedAt C options input t request ∧
      ∀ result, wait.promise = .resolved result → AcceptedFor C request result
  | .resulted request result => SignedAt C options input t request ∧ AcceptedFor C request result
  | .received request result =>
      SignedAt C options input t request ∧ AcceptedFor C request result.toValidated
  | .fetching request result | .fetchAttempting request result _ | .fetch request result _ _ _
  | .fetchDelay request result _ _ =>
      SignedAt C options input t request ∧ AcceptedFor C request result.toValidated ∧
        result.content.proof.program_hash = C.trustedProgramHash
  | .verifying request result proofBytes | .verify request result proofBytes =>
      SignedAt C options input t request ∧ AcceptedFor C request result.toValidated ∧
        result.content.proof.program_hash = C.trustedProgramHash ∧ Downloaded C result proofBytes
  | .verified job | .settled (.ok job) => ∃ proofBytes, Checked C options input t log job proofBytes
  | .failing _ | .settled (.error _) => True

theorem Accepted.append {job : VerifiedJob} {proofBytes : ProofBytes}
    (h : Accepted C log proofBytes job) : Accepted C (log ++ seen) proofBytes job := by
  obtain ⟨j, hmem⟩ := h
  exact ⟨j, List.mem_append_left _ hmem⟩

theorem Checked.append {job : VerifiedJob} {proofBytes : ProofBytes}
    (h : Checked C options input t log job proofBytes) :
    Checked C options input t (log ++ seen) job proofBytes :=
  { h with verified := h.verified.append }

theorem Point.Holds.append (h : p.Holds C options input t log) :
    p.Holds C options input t (log ++ seen) := by
  cases p with
  | verified job =>
    obtain ⟨proofBytes, hchecked⟩ := h
    exact ⟨proofBytes, hchecked.append⟩
  | settled outcome =>
    cases outcome with
    | ok job =>
      obtain ⟨proofBytes, hchecked⟩ := h
      exact ⟨proofBytes, hchecked.append⟩
    | error e => trivial
  | _ => exact h

theorem settle_eq_resolved {α : Type} {promise : Promise α} {settlement : Except JsError α} {value : α}
    (h : promise.settle settlement = .resolved value) :
    promise = .resolved value ∨ settlement = .ok value := by
  cases promise with
  | pending =>
    cases settlement with
    | ok x => cases h; exact Or.inr rfl
    | error e => cases h
  | resolved x => exact Or.inl h
  | rejected e => cases h

/-- An abort makes no new data. -/
theorem Point.Holds.abort (h : p.Holds C options input t log) (controller : ℕ) :
    (p.abort controller).Holds C options input t log := by
  cases p with
  | publishDelay request attempt delay =>
    rw [Point.abort]
    split <;> exact h
  | waiting request signal wait =>
    rw [Point.abort]
    split
    · refine ⟨h.1, fun result hresult => ?_⟩
      rcases settle_eq_resolved hresult with hresult | hresult
      · exact h.2 result hresult
      · cases hresult
    · exact h
  | fetchDelay request result attempt delay =>
    rw [Point.abort]
    split <;> exact h
  | _ => exact h

/-- A delivered event resolves the wait only with a result that is accepted. -/
theorem accepted_of_onEvent {request : ValidatedRequest} {wait : ResultWait} {event : Event} {now : ℕ}
    {result : ValidatedResult} (h : ∀ r, wait.promise = .resolved r → AcceptedFor C request r)
    (hresult : (wait.onEvent C request event now).promise = .resolved result) :
    AcceptedFor C request result := by
  rw [ResultWait.onEvent_promise (d := (event, now))] at hresult
  split at hresult
  · exact h result hresult
  · split at hresult
    · rename_i accepted haccepted
      rcases settle_eq_resolved hresult with hresult | hresult
      · exact h result hresult
      · cases hresult
        rw [ResultWait.acceptable] at haccepted
        split at haccepted
        · rename_i htrusted
          refine ⟨event, now, htrusted, ?_⟩
          cases hvalid : validateResultEvent C.platform event request now with
          | ok r => rw [hvalid] at haccepted; exact congrArg _ (Option.some.inj haccepted)
          | error e => rw [hvalid] at haccepted; cases haccepted
        · cases haccepted
    · exact h result hresult

/-- The point that an execution goes on to. -/
def Outcome.next : Outcome → Option Point
  | .update _ point => some point
  | .await point _ => some point
  | .settles outcome => some (.settled outcome)
  | .throws _ => none

/-- The code between two points keeps what is known; the verdict of the verifier is seen. -/
theorem holds_of_continues {q : Point} (hc : Continues C options a p o) (hq : o.next = some q)
    (h : p.Holds C options input t log)
    (hverdict : ∀ request result proofBytes job, p = .verify request result proofBytes →
      q = .verified job → Accepted C log proofBytes job) :
    q.Holds C options input t log := by
  cases hc with
  | throws error => cases hq
  | sign => cases hq; exact h
  | signed hactive hsigned hvalid => cases hq; exact ⟨_, _, _, _, h, hsigned, hvalid⟩
  | firstAttempt hactive => cases hq; exact h
  | publish => cases hq; exact h
  | published hactive => cases hq; exact h
  | publishFailed hretry => cases hq; exact h
  | publishTimer => cases hq; exact h
  | nextAttempt hactive => cases hq; exact h
  | subscribe =>
    cases hq
    refine ⟨h, fun result hresult => ?_⟩
    cases hresult
  | event event now =>
    cases hq
    exact ⟨h.1, fun result hresult => accepted_of_onEvent h.2 hresult⟩
  | waitFailed error =>
    cases hq
    refine ⟨h.1, fun result hresult => ?_⟩
    rcases settle_eq_resolved hresult with hresult | hresult
    · exact h.2 result hresult
    · cases hresult
  | result hactive hresult => cases hq; exact ⟨h.1, h.2 _ hresult⟩
  | received hcontent =>
    cases hq
    obtain ⟨hsigned, event, now, htrusted, hvalid⟩ := h
    refine ⟨hsigned, event, now, htrusted, ?_⟩
    rw [hvalid, SuccessfulResult.toValidated, ← hcontent]
  | fetching hprogram => cases hq; exact ⟨h.1, h.2, hprogram⟩
  | firstFetch hactive => cases hq; exact h
  | fetch => cases hq; exact h
  | fetchFailed hretry => cases hq; exact h
  | fetchTimer => cases hq; exact h
  | nextFetch hactive => cases hq; exact h
  | fetched hactive hbytes =>
    cases hq
    exact ⟨h.1, h.2.1, h.2.2, fetchProofArtifact_ok hbytes⟩
  | verify hprogram => cases hq; exact h
  | verified hactive =>
    cases hq
    exact ⟨_, h.1, h.2.1, h.2.2.1, h.2.2.2, hverdict _ _ _ _ rfl rfl⟩
  | returns => cases hq; exact h
  | rethrows => cases hq; trivial

/-- An execution makes the snapshot verified only with its record. -/
theorem patch_of_continues {patch : Patch} {q : Point}
    (hc : Continues C options a p (.update patch q)) :
    patch ≠ .state .verified ∧ patch ≠ .draft ∧ ∀ job, patch = .verified job → q = .verified job := by
  cases hc <;> simp

theorem publish_of_continues {q : Point} {event : Event}
    (hc : Continues C options a p (.await q (some (.publish event))))
    (h : p.Holds C options input t log) :
    ∃ request, SignedAt C options input t request ∧ request.event = event := by
  cases hc
  exact ⟨_, h, rfl⟩

/-- A patch without a record leaves a verified snapshot alone. -/
theorem Patch.verified_of_state {s : JobSnapshot} {patch : Patch}
    (h : (patch.apply s).state = .verified) : (∃ job, patch = .verified job) ∨
      patch = .state .verified ∨ s.state = .verified ∧ (patch.apply s).verified = s.verified := by
  cases patch with
  | draft => cases h
  | state next => exact Or.inr (Or.inl (congrArg _ h))
  | verified job => exact Or.inl ⟨job, rfl⟩
  | failed failure => cases h
  | _ => exact Or.inr (Or.inr ⟨h, rfl⟩)

/-- What leads to `verified` is that the verifier returned `true`. -/
theorem accepted_of_complete {completion : Completion C.signer.Answer} {j : ℕ}
    {request : ValidatedRequest} {result : SuccessfulResult} {proofBytes : ProofBytes}
    {job : VerifiedJob}
    (h : complete C options a (.verify request result proofBytes) completion = some o)
    (hjob : o.next = some (.verified job)) :
    Accepted C (SoulJob.answered C j (.verify request result proofBytes) completion) proofBytes
      job := by
  cases completion with
  | verified answer left =>
    rw [complete] at h
    split at h
    · cases h; cases hjob
    · rename_i hverdict
      cases h
      rw [assertActive] at hjob
      split at hjob
      · cases hjob
        rw [judge_eq_ok.mp hverdict]
        exact ⟨j, List.mem_singleton_self _⟩
      · cases hjob
  | _ => cases h

/-! ### Sessions -/

/-- The data of every execution, of what was published, and of a verified snapshot. -/
structure Provenance (C : SoulNostrClient) (options : JobOptions) (input : JobInput)
    (c : JobSession) : Prop where
  sameInput : c.snapshot.input = input
  holds : ∀ (j t : ℕ) (p : Point), c.executions[j]? = some (t, p) → p.Holds C options input t c.log
  signed : ∀ (j : ℕ) (event : Event), .effect j (.publish event) ∈ c.log → ∃ t p request,
    c.executions[j]? = some (t, p) ∧ SignedAt C options input t request ∧ request.event = event
  checked : c.snapshot.state = .verified → ∃ job t proofBytes, c.snapshot.verified = some job ∧
    Checked C options input t c.log job proofBytes

namespace Provenance

variable {c c' : JobSession} {j : ℕ}

theorem observe (h : Provenance C options input c) (hseen : ∀ j event, .effect j (.publish event) ∈ seen →
    ∃ t p request, c.executions[j]? = some (t, p) ∧ SignedAt C options input t request ∧
      request.event = event) : Provenance C options input (c.observe seen) where
  sameInput := h.sameInput
  holds j t p hp := (h.holds j t p hp).append
  signed j event hmem := by
    rcases List.mem_append.mp hmem with hmem | hmem
    · exact h.signed j event hmem
    · exact hseen j event hmem
  checked hstate := by
    obtain ⟨job, t, proofBytes, hjob, hchecked⟩ := h.checked hstate
    exact ⟨job, t, proofBytes, hjob, hchecked.append⟩

theorem setPoint (h : Provenance C options input c) (hpoint : c.executions[j]? = some (t, p))
    {q : Point} (hq : q.Holds C options input t c.log) :
    Provenance C options input (c.setPoint j q) where
  sameInput := h.sameInput
  holds i t' q' hi := by
    rcases (JobSession.getElem?_setPoint hpoint).mp hi with ⟨rfl, rfl, rfl⟩ | ⟨-, hi⟩
    · exact hq
    · exact h.holds i t' q' hi
  signed i event hmem := by
    obtain ⟨t', p', request, hi, hsigned⟩ := h.signed i event hmem
    by_cases hij : i = j
    · subst hij
      obtain ⟨rfl, rfl⟩ := Prod.mk.inj (Option.some.inj (hpoint.symm.trans hi))
      exact ⟨t, q, request, (JobSession.getElem?_setPoint hpoint).mpr (Or.inl ⟨rfl, rfl, rfl⟩), hsigned⟩
    · exact ⟨t', p', request, (JobSession.getElem?_setPoint hpoint).mpr (Or.inr ⟨hij, hi⟩), hsigned⟩
  checked hstate := h.checked hstate

theorem update (h : Provenance C options input c) {patch : Patch} (hpatch : patch ≠ .state .verified)
    (hjob : ∀ job, patch = .verified job →
      ∃ t proofBytes, Checked C options input t c.log job proofBytes) :
    Provenance C options input (c.update patch) where
  sameInput := (patch.apply_input _).trans h.sameInput
  holds := h.holds
  signed := h.signed
  checked hstate := by
    rcases Patch.verified_of_state hstate with ⟨job, rfl⟩ | hstate | ⟨hstate, hsame⟩
    · obtain ⟨t, proofBytes, hchecked⟩ := hjob job rfl
      exact ⟨job, t, proofBytes, rfl, hchecked⟩
    · exact absurd hstate hpatch
    · obtain ⟨job, t, proofBytes, hverified, hchecked⟩ := h.checked hstate
      exact ⟨job, t, proofBytes, hsame.trans hverified, hchecked⟩

theorem settle (h : Provenance C options input c) (hpoint : c.executions[j]? = some (t, p))
    {outcome : Except JsError VerifiedJob}
    (hq : (Point.settled outcome).Holds C options input t c.log) :
    Provenance C options input (c.settle j outcome) := by
  refine (h.setPoint hpoint hq).observe fun i event hmem => ?_
  simp at hmem

theorem raise (h : Provenance C options input c) (hpoint : c.executions[j]? = some (t, p))
    (error : JsError) : Provenance C options input (c.raise j error) := by
  rw [JobSession.raise]
  split
  · exact h.settle hpoint trivial
  · exact (h.setPoint hpoint (q := .failing error) trivial).update (by simp) (by simp)

theorem perform (h : Provenance C options input c) (hpoint : c.executions[j]? = some (t, p))
    (hc : Continues C options c.aborts p o)
    (hverdict : ∀ request result proofBytes job, p = .verify request result proofBytes →
      o.next = some (.verified job) → Accepted C c.log proofBytes job) :
    Provenance C options input (c.perform j o) := by
  have hnext : ∀ q, o.next = some q → q.Holds C options input t c.log := fun q hq =>
    holds_of_continues hc hq (h.holds j t p hpoint) fun request result proofBytes job hp hjob =>
      hverdict request result proofBytes job hp (hjob ▸ hq)
  cases o with
  | update patch point =>
    obtain ⟨hstate, -, hjob⟩ := patch_of_continues hc
    refine (h.setPoint hpoint (hnext point rfl)).update hstate fun job hpatch => ⟨t, ?_⟩
    exact hnext (.verified job) (congrArg _ (hjob job hpatch))
  | await point effect =>
    refine (h.setPoint hpoint (hnext point rfl)).observe fun i event hmem => ?_
    cases effect with
    | none => cases hmem
    | some effect =>
      obtain ⟨rfl, rfl⟩ : i = j ∧ .publish event = effect := by simpa using hmem
      obtain ⟨request, hsigned, hevent⟩ := publish_of_continues hc (h.holds _ _ _ hpoint)
      exact ⟨t, point, request, (JobSession.getElem?_setPoint hpoint).mpr (Or.inl ⟨rfl, rfl, rfl⟩),
        hsigned, hevent⟩
  | throws error => exact h.raise hpoint error
  | settles outcome => exact h.settle hpoint (hnext _ rfl)

theorem redraft (h : Provenance C options input c) : Provenance C options input c.redraft where
  sameInput := h.sameInput
  holds := h.holds
  signed := h.signed
  checked hstate := by cases hstate

theorem cancel (h : Provenance C options input c) : Provenance C options input c.cancel where
  sameInput := h.sameInput
  holds j t p hp := by
    obtain ⟨q, hq, rfl⟩ := JobSession.getElem?_cancel.mp hp
    exact (h.holds j t q hq).abort _
  signed j event hmem := by
    obtain ⟨t, p, request, hp, hsigned⟩ := h.signed j event hmem
    exact ⟨t, _, request, JobSession.getElem?_cancel.mpr ⟨p, hp, rfl⟩, hsigned⟩
  checked hstate := by cases hstate

theorem begin (h : Provenance C options input c) {now : ℕ} {template : EventTemplate}
    (htemplate : requestTemplate options c.snapshot.input now = .ok template) :
    Provenance C options input (c.begin now template) where
  sameInput := h.sameInput
  holds j t p hp := by
    rcases JobSession.getElem?_begin hp with hp | ⟨rfl, rfl⟩
    · exact h.holds j t p hp
    · rw [h.sameInput] at htemplate
      exact htemplate
  signed j event hmem := by
    obtain ⟨t, p, request, hp, hsigned⟩ := h.signed j event hmem
    exact ⟨t, p, request, JobSession.getElem?_begin_of_some hp, hsigned⟩
  checked hstate := by cases hstate

/-- What the verifier answers is no effect of the job. -/
theorem effect_not_mem_answered {i : ℕ} {p : Point} {completion : Completion C.signer.Answer}
    {event : Event} : .effect j (.publish event) ∉ SoulJob.answered C i p completion := by
  rw [SoulJob.answered.eq_def]
  split <;> simp

theorem moves {caller : Option Caller} {l : Label C.signer.Answer}
    (h : Provenance C options input c) (hm : JobSession.Moves C options caller c l c') :
    Provenance C options input c' := by
  cases hm with
  | quiet => exact h
  | started hdraft htemplate => exact h.begin htemplate
  | retried hretry => exact h.redraft
  | waits hretry => exact ⟨h.sameInput, h.holds, h.signed, h.checked⟩
  | resumed hk => exact Provenance.redraft ⟨h.sameInput, h.holds, h.signed, h.checked⟩
  | cancelled hstate => exact h.cancel
  | continued hcaller hpoint ho =>
    refine h.perform hpoint (continues_of_afterUpdate ho) fun request result proofBytes job hp _ => ?_
    obtain rfl := hp
    cases ho
  | completed hpoint ho =>
    refine (h.observe fun i event hmem => absurd hmem effect_not_mem_answered).perform hpoint
      (continues_of_complete ho) fun request result proofBytes job hp hjob => ?_
    obtain rfl := hp
    obtain ⟨i, hmem⟩ := accepted_of_complete ho hjob
    exact ⟨i, List.mem_append_right _ hmem⟩
  | thrown hcaller hpoint hp => exact h.raise hpoint _
  | rethrown hpoint => exact h.settle hpoint trivial

theorem new (C : SoulNostrClient) (options : JobOptions) (input : JobInput) :
    Provenance C options (canonicalizeInput input) (SoulJob.new input).session where
  sameInput := rfl
  holds j t p hp := by cases hp
  signed j event hmem := by cases hmem
  checked hstate := by cases hstate

theorem visits {ls : List (Label C.signer.Answer)} {s : SoulJob}
    (hs : Visits (SoulJob.step C options) (SoulJob.new input) ls s) :
    Provenance C options (canonicalizeInput input) s.session :=
  hs.invariant (I := fun s => Provenance C options (canonicalizeInput input) s.session)
    (new C options input) fun _ _ _ ht h => h.moves (SoulJob.moves_of_step ht.enabled)

end Provenance

end SoulSociety.Session
