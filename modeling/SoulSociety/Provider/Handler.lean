import SoulSociety.Lib.Run
import SoulSociety.Provider.Dedupe
import SoulSociety.Provider.Processor

/-! The signed job handler (`provider/src/nostr/handler.rs`) as a machine. Any number of
    `handle_event` calls run at once; what one call does under a lock, with the code up to its next
    lock or await, is one step. A label says which call moves and what the environment answers. -/

namespace SoulSociety.Provider
open Lib SoulSociety.Core

/-! ### Signing a result -/

/-- What the handler takes from `nostr`: its key, and `sign_with_keys` of an `EventBuilder` at a
    time, for a kind, a content and tags. -/
structure Keys where
  publicKey : Text
  sign : ℕ → ℕ → Text → List (List Text) → Option Event

/-- `EventBuilder::build` discards the `p` tags that name the author. -/
def buildTags (author : Text) (tags : List (List Text)) : List (List Text) :=
  tags.filter fun tag => !(tag.head? = some (text "p") && tag[1]? = some author)

/-- A signed event is authentic and has the fields that were asked for. -/
def Keys.Lawful (K : Keys) (L : Libraries) : Prop :=
  ∀ t kind content tags e, K.sign t kind content tags = some e → L.verify e = true ∧
    e.pubkey = K.publicKey ∧ e.created_at = t ∧ e.kind = kind ∧ e.content = content ∧
    e.tags = buildTags K.publicKey tags

inductive JobHandlingError where
  | invalidRequest (e : WireError)
  | resultEncoding
  | resultTooLarge
  | signing
  deriving DecidableEq, Repr

/-- `into_nostr_tags`: a tag has at least its name. -/
def intoNostrTags (tags : List (List Text)) : Except WireError (List (List Text)) := do
  rejectIf ([] ∈ tags) .invalidTag
  return tags

/-- Encode, bound and sign a result. The encoder of `serde_json` does not fail on results. -/
def signResult (K : Keys) (request : JobRequest) (result : JobResultContent) (t : ℕ) :
    Except JobHandlingError Event := do
  let content := result.toText
  rejectIf (utf8Len content > maxResultBytes) .resultTooLarge
  let tags ← mapReject (intoNostrTags (resultTags request result)) .invalidRequest
  orReject (K.sign t request.service.resultKind content tags) .signing

theorem nil_not_mem_resultTags (request : JobRequest) (result : JobResultContent) :
    [] ∉ resultTags request result := by
  simp [resultTags]

/-- A result is signed when it fits; its tags always have names. -/
theorem signResult_eq_ok {K : Keys} {request : JobRequest} {result : JobResultContent} {t : ℕ}
    {e : Event} : signResult K request result t = .ok e ↔ utf8Len result.toText ≤ maxResultBytes ∧
      K.sign t request.service.resultKind result.toText (resultTags request result) = some e := by
  simp only [signResult, intoNostrTags, bind_eq_ok, rejectIf_eq_ok, mapReject_eq_ok, orReject_eq_ok,
    pure_eq_ok, exists_unit]
  constructor
  · rintro ⟨hsize, _, ⟨-, rfl⟩, hsign⟩
    exact ⟨Nat.not_lt.mp hsize, hsign⟩
  · rintro ⟨hsize, hsign⟩
    exact ⟨Nat.not_lt.mpr hsize, _, ⟨nil_not_mem_resultTags _ _, rfl⟩, hsign⟩

/-- Tags of a result to somebody else are sent as they are. -/
theorem buildTags_resultTags {author : Text} {request : JobRequest}
    (h : request.customer_pubkey ≠ author) (result : JobResultContent) :
    buildTags author (resultTags request result) = resultTags request result := by
  refine List.filter_eq_self.mpr ?_
  have hp : (!([text "p", request.customer_pubkey].head? = some (text "p") &&
      [text "p", request.customer_pubkey][1]? = some author)) = true := by simp [h]
  simp only [resultTags, List.forall_mem_cons]
  exact ⟨rfl, rfl, hp, rfl, rfl, rfl, rfl, rfl, by simp⟩

/-- A result to the author's own key loses a tag. -/
theorem length_buildTags_self (request : JobRequest) (result : JobResultContent) :
    (buildTags request.customer_pubkey (resultTags request result)).length = 7 := by
  have hp : (!([text "p", request.customer_pubkey].head? = some (text "p") &&
      [text "p", request.customer_pubkey][1]? = some request.customer_pubkey)) = false := by simp
  rw [buildTags, resultTags, List.filter_cons_of_pos rfl, List.filter_cons_of_pos rfl,
    List.filter_cons_of_neg (by rw [hp]; exact Bool.false_ne_true)]
  rfl

/-! ### The machine -/

/-- What a provider is set up with. -/
structure Setup where
  L : Libraries
  U : UrlLibrary
  base : Url
  keys : Keys

/-- The part of `handle_event` after a successful claim, up to the replay cache. -/
def handleClaimed (P : Setup) (request : JobRequest) (answers : Answers) (t : ℕ) :
    Except JobHandlingError Event :=
  signResult P.keys request (resultFor request (process P.U P.base answers request)) t

/-- How far a call of `handle_event` is. -/
inductive Phase where
  | lookedUp
  | processing
  | signed (event : Event)
  | returned
  deriving DecidableEq

structure Call where
  request : JobRequest
  phase : Phase
  deriving DecidableEq

/-- What can be seen of a run. A claim that succeeds starts `process`. -/
inductive Observation where
  | delivered (id : Text)
  | claimed (id : Text)
  | returned (id : Text) (event : Option Event)
  | failed (id : Text) (e : JobHandlingError)
  deriving DecidableEq

/-- The handler, its calls, and what was seen so far. -/
structure SignedJobHandler where
  dedupe : RequestDeduplicator
  completed : CompletedResults
  calls : List Call
  log : List Observation
  deriving DecidableEq

namespace SignedJobHandler

def new (capacity : ℕ) : SignedJobHandler where
  dedupe := .new capacity
  completed := .new capacity
  calls := []
  log := []

inductive Label where
  | deliver (event : Event) (now : ℕ)
  | claim (call : ℕ)
  | complete (call : ℕ) (answers : Answers) (t : ℕ)
  | remember (call : ℕ)

/-- The call moves on. -/
def setCall (s : SignedJobHandler) (i : ℕ) (request : JobRequest) (phase : Phase)
    (seen : List Observation) : SignedJobHandler :=
  { s with calls := s.calls.set i ⟨request, phase⟩, log := s.log ++ seen }

/-- One step of the handler. -/
def step (P : Setup) (s : SignedJobHandler) : Label → Option SignedJobHandler
  | .deliver event now =>
    match parseRequestEvent P.L event now with
    | .error _ => some s
    | .ok request =>
      match s.completed.get request.id with
      | some completed =>
        some { s with log := s.log ++ [.delivered request.id, .returned request.id (some completed)] }
      | none =>
        some { s with
          calls := s.calls ++ [⟨request, .lookedUp⟩]
          log := s.log ++ [.delivered request.id] }
  | .claim i =>
    match s.calls[i]? with
    | some ⟨request, .lookedUp⟩ =>
      match s.dedupe.claim request.id with
      | (false, _) => some (s.setCall i request .returned [.returned request.id none])
      | (true, dedupe) =>
        some { s.setCall i request .processing [.claimed request.id] with dedupe := dedupe }
    | _ => none
  | .complete i answers t =>
    match s.calls[i]? with
    | some ⟨request, .processing⟩ =>
      match handleClaimed P request answers t with
      | .error e => some (s.setCall i request .returned [.failed request.id e])
      | .ok event => some (s.setCall i request (.signed event) [])
    | _ => none
  | .remember i =>
    match s.calls[i]? with
    | some ⟨request, .signed event⟩ =>
      some { s.setCall i request .returned [.returned request.id (some event)] with
        completed := s.completed.insert request.id event }
    | _ => none

/-- Everything that a step can do. -/
inductive Moves (P : Setup) (s : SignedJobHandler) : Label → SignedJobHandler → Prop
  | rejected {event : Event} {now : ℕ} : Moves P s (.deliver event now) s
  | replayed {event : Event} {now : ℕ} {request : JobRequest} {completed : Event}
      (hparse : parseRequestEvent P.L event now = .ok request)
      (hget : s.completed.get request.id = some completed) :
      Moves P s (.deliver event now)
        { s with log := s.log ++ [.delivered request.id, .returned request.id (some completed)] }
  | lookedUp {event : Event} {now : ℕ} {request : JobRequest}
      (hparse : parseRequestEvent P.L event now = .ok request)
      (hget : s.completed.get request.id = none) :
      Moves P s (.deliver event now)
        { s with
          calls := s.calls ++ [⟨request, .lookedUp⟩]
          log := s.log ++ [.delivered request.id] }
  | duplicate {i : ℕ} {request : JobRequest} (hcall : s.calls[i]? = some ⟨request, .lookedUp⟩)
      (hid : request.id ∈ s.dedupe.ids) :
      Moves P s (.claim i) (s.setCall i request .returned [.returned request.id none])
  | claimed {i : ℕ} {request : JobRequest} (hcall : s.calls[i]? = some ⟨request, .lookedUp⟩)
      (hid : request.id ∉ s.dedupe.ids) :
      Moves P s (.claim i)
        { s.setCall i request .processing [.claimed request.id] with
          dedupe := (s.dedupe.claim request.id).2 }
  | failed {i : ℕ} {answers : Answers} {t : ℕ} {request : JobRequest} {e : JobHandlingError}
      (hcall : s.calls[i]? = some ⟨request, .processing⟩)
      (hresult : handleClaimed P request answers t = .error e) :
      Moves P s (.complete i answers t) (s.setCall i request .returned [.failed request.id e])
  | signed {i : ℕ} {answers : Answers} {t : ℕ} {request : JobRequest} {event : Event}
      (hcall : s.calls[i]? = some ⟨request, .processing⟩)
      (hresult : handleClaimed P request answers t = .ok event) :
      Moves P s (.complete i answers t) (s.setCall i request (.signed event) [])
  | remembered {i : ℕ} {request : JobRequest} {event : Event}
      (hcall : s.calls[i]? = some ⟨request, .signed event⟩) :
      Moves P s (.remember i)
        { s.setCall i request .returned [.returned request.id (some event)] with
          completed := s.completed.insert request.id event }

theorem moves_of_step {P : Setup} {s s' : SignedJobHandler} : ∀ {l : Label},
    step P s l = some s' → Moves P s l s'
  | .deliver event now, h => by
    rw [step] at h
    split at h
    · cases h; exact .rejected
    · rename_i request hparse
      split at h
      · rename_i completed hget
        cases h; exact .replayed hparse hget
      · rename_i hget
        cases h; exact .lookedUp hparse hget
  | .claim i, h => by
    rw [step] at h
    split at h
    · rename_i request hcall
      by_cases hid : request.id ∈ s.dedupe.ids
      · rw [RequestDeduplicator.claim_of_mem hid] at h
        cases h; exact .duplicate hcall hid
      · have hclaim : s.dedupe.claim request.id = (true, (s.dedupe.claim request.id).2) := by
          rw [RequestDeduplicator.claim, if_neg hid]
        rw [hclaim] at h
        cases h; exact .claimed hcall hid
    · cases h
  | .complete i answers t, h => by
    rw [step] at h
    split at h
    · rename_i request hcall
      split at h
      · rename_i e hresult
        cases h; exact .failed hcall hresult
      · rename_i event hresult
        cases h; exact .signed hcall hresult
    · cases h
  | .remember i, h => by
    rw [step] at h
    split at h
    · rename_i request event hcall
      cases h; exact .remembered hcall
    · cases h

/-! ### Calls after a step -/

variable {s : SignedJobHandler} {i j : ℕ} {request r : JobRequest} {phase p : Phase}

@[simp] theorem setCall_dedupe (seen : List Observation) :
    (s.setCall i request phase seen).dedupe = s.dedupe := rfl

@[simp] theorem setCall_completed (seen : List Observation) :
    (s.setCall i request phase seen).completed = s.completed := rfl

@[simp] theorem setCall_log (seen : List Observation) :
    (s.setCall i request phase seen).log = s.log ++ seen := rfl

/-- Only the call that moves changes. -/
theorem getElem?_set_call {old : Call} (h : s.calls[i]? = some old) :
    (s.calls.set i ⟨request, phase⟩)[j]? = some ⟨r, p⟩ ↔
      i = j ∧ request = r ∧ phase = p ∨ i ≠ j ∧ s.calls[j]? = some ⟨r, p⟩ := by
  obtain ⟨hlt, -⟩ := List.getElem?_eq_some_iff.mp h
  rw [List.getElem?_set]
  split
  · rename_i hij
    rw [Option.some.injEq, Call.mk.injEq]
    simp [hij]
  · rename_i hij
    simp [hij]

theorem getElem?_append_call {c c' : Call} (h : (s.calls ++ [c])[j]? = some c') :
    s.calls[j]? = some c' ∨ c' = c := by
  rw [List.getElem?_append] at h
  split at h
  · exact Or.inl h
  · rw [List.getElem?_singleton] at h
    split at h
    · exact Or.inr (Option.some.inj h).symm
    · cases h

end SignedJobHandler

end SoulSociety.Provider
