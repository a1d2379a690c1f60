import Mathlib.Logic.Function.Basic
import SoulSociety.Core.NostrEvents

/-! The documents of the wire types. Each is plain: its keys are distinct, its strings well formed,
    and its integers those of the value. Encoders are injective, so a text stands for one value. -/

namespace SoulSociety.Core
open Lib Json

variable {ok : ℕ → Prop}

theorem plain_jsonText (t : Text) : PlainFor ok (jsonText t) := paired_ofText t

theorem plain_jsonNat {n : ℕ} (h : ok n) : PlainFor ok (jsonNat n) := h

theorem plain_felt (f : FeltHex) : PlainFor ok f.toJson := paired_ofText f.value

theorem plain_felts (fs : List FeltHex) : PlainFor ok (.arr (fs.map FeltHex.toJson)) := by
  refine plain_arr fun x hx => ?_
  obtain ⟨f, -, rfl⟩ := List.mem_map.mp hx
  exact plain_felt f

theorem jsonText_inj {s t : Text} : jsonText s = jsonText t ↔ s = t := by
  rw [jsonText, jsonText, Json.str.injEq, ofText_inj]

theorem jsonNat_inj {m n : ℕ} : jsonNat m = jsonNat n ↔ m = n := by
  rw [jsonNat, jsonNat, Json.num.injEq, Number.nat.injEq]

theorem feltJson_inj {a b : FeltHex} : a.toJson = b.toJson ↔ a = b := by
  rw [FeltHex.toJson, FeltHex.toJson, Json.str.injEq, ofText_inj, FeltHex.value_inj]

theorem feltsJson_inj {as bs : List FeltHex} :
    as.map FeltHex.toJson = bs.map FeltHex.toJson ↔ as = bs :=
  (List.map_injective_iff.mpr fun _ _ h => feltJson_inj.mp h).eq_iff

theorem asStr_inj {a b : ServiceType} : a.asStr = b.asStr ↔ a = b :=
  ⟨ServiceType.asStr_injective, fun h => h ▸ rfl⟩

theorem codeStr_inj {a b : ErrorCode} : a.asStr = b.asStr ↔ a = b :=
  ⟨ErrorCode.asStr_injective, fun h => h ▸ rfl⟩

/-- Two objects with the same keys are equal when their values are. -/
theorem members_inj {k : JsString} {v w : Json} {ms ns : List (JsString × Json)} :
    (k, v) :: ms = (k, w) :: ns ↔ v = w ∧ ms = ns := by
  rw [List.cons.injEq, Prod.mk.injEq, and_iff_right rfl]

/-! ### Requests -/

theorem JobInput.plain : ∀ {i : JobInput}, i.Numbers ok → PlainFor ok i.toJson
  | .fibonacci _, h => by
    refine plain_obj [key "type", key "n"] rfl (by decide) ?_
    simp only [List.forall_mem_cons]
    exact ⟨plain_jsonText _, plain_jsonNat h, by simp⟩
  | .hashVerify hash preimage, _ => by
    refine plain_obj [key "type", key "hash", key "preimage"] rfl (by decide) ?_
    simp only [List.forall_mem_cons]
    exact ⟨plain_jsonText _, plain_felt hash, plain_felt preimage, by simp⟩
  | .merkleProof root leaf proof _, h => by
    refine plain_obj [key "type", key "root", key "leaf", key "proof", key "index"] rfl
      (by decide) ?_
    simp only [List.forall_mem_cons]
    exact ⟨plain_jsonText _, plain_felt root, plain_felt leaf, plain_felts proof, plain_jsonNat h,
      by simp⟩

theorem JobRequestContent.plain {c : JobRequestContent} (h : c.Numbers ok) :
    PlainFor ok c.toJson := by
  obtain ⟨hinput, hexpiry⟩ := h
  rw [JobRequestContent.toJson]
  cases he : c.expires_at with
  | none =>
    refine plain_obj [key "protocol", key "service", key "input"] rfl (by decide) ?_
    simp only [Option.map_none, Option.toList_none, List.append_nil, List.forall_mem_cons]
    exact ⟨plain_jsonText _, plain_jsonText _, JobInput.plain hinput, by simp⟩
  | some e =>
    refine plain_obj [key "protocol", key "service", key "input", key "expires_at"] rfl
      (by decide) ?_
    simp only [Option.map_some, Option.toList_some, List.cons_append, List.nil_append,
      List.forall_mem_cons]
    exact ⟨plain_jsonText _, plain_jsonText _, JobInput.plain hinput,
      plain_jsonNat (hexpiry e he), by simp⟩

theorem JobInput.toJson_injective : Function.Injective JobInput.toJson := by
  intro a b h
  cases a with
  | fibonacci n =>
    cases b with
    | fibonacci m =>
      simp only [toJson, Json.obj.injEq, members_inj, jsonNat_inj, true_and, and_true] at h
      rw [h]
    | hashVerify _ _ => simp [toJson] at h
    | merkleProof _ _ _ _ => simp [toJson] at h
  | hashVerify hash preimage =>
    cases b with
    | fibonacci _ => simp [toJson] at h
    | hashVerify hash' preimage' =>
      simp only [toJson, Json.obj.injEq, members_inj, feltJson_inj, true_and, and_true] at h
      rw [h.1, h.2]
    | merkleProof _ _ _ _ => simp [toJson] at h
  | merkleProof root leaf proof index =>
    cases b with
    | fibonacci _ => simp [toJson] at h
    | hashVerify _ _ => simp [toJson] at h
    | merkleProof root' leaf' proof' index' =>
      simp only [toJson, Json.obj.injEq, members_inj, feltJson_inj, Json.arr.injEq, feltsJson_inj,
        jsonNat_inj, true_and, and_true] at h
      obtain ⟨rfl, rfl, rfl, rfl⟩ := h
      rfl

theorem JobRequestContent.toJson_injective : Function.Injective JobRequestContent.toJson := by
  rintro ⟨protocol, service, input, expires_at⟩ ⟨protocol', service', input', expires_at'⟩ h
  simp only [toJson, Json.obj.injEq, List.cons_append, List.nil_append, members_inj, jsonText_inj,
    asStr_inj, JobInput.toJson_injective.eq_iff] at h
  obtain ⟨rfl, rfl, rfl, h⟩ := h
  cases expires_at with
  | none =>
    cases expires_at' with
    | none => rfl
    | some e => simp at h
  | some e =>
    cases expires_at' with
    | none => simp at h
    | some e' =>
      simp only [Option.map_some, Option.toList_some, members_inj, jsonNat_inj, and_true] at h
      rw [h]

/-- The canonical text of a request determines its content. -/
theorem JobRequestContent.canonicalJson_injective :
    Function.Injective JobRequestContent.canonicalJson := by
  intro a b h
  have hplain : ∀ c : JobRequestContent, PlainFor (fun _ => True) c.toJson := by
    intro c
    refine JobRequestContent.plain ⟨?_, fun _ _ => trivial⟩
    cases c.input <;> exact trivial
  exact toJson_injective (stringify_inj (hplain a) (hplain b) h)

/-! ### Results -/

theorem JobOutput.plain : ∀ o : JobOutput, PlainFor ok o.toJson
  | .fibonacci result => by
    refine plain_obj [key "type", key "result"] rfl (by decide) ?_
    simp only [List.forall_mem_cons]
    exact ⟨plain_jsonText _, plain_felt result, by simp⟩
  | .hashVerify _ => by
    refine plain_obj [key "type", key "valid"] rfl (by decide) ?_
    simp only [List.forall_mem_cons]
    exact ⟨plain_jsonText _, trivial, by simp⟩
  | .merkleProof _ => by
    refine plain_obj [key "type", key "valid"] rfl (by decide) ?_
    simp only [List.forall_mem_cons]
    exact ⟨plain_jsonText _, trivial, by simp⟩

theorem ProofStatement.plain (s : ProofStatement) : PlainFor ok s.toJson := by
  refine plain_obj [key "service", key "program", key "public_input", key "public_output",
    key "output"] rfl (by decide) ?_
  simp only [List.forall_mem_cons]
  exact ⟨plain_jsonText _, plain_jsonText _, plain_felts _, plain_felts _, s.output.plain, by simp⟩

theorem ProofDescriptor.plain {d : ProofDescriptor} (h : ok d.byte_size) :
    PlainFor ok d.toJson := by
  refine plain_obj [key "format", key "media_type", key "url", key "sha256", key "byte_size",
    key "program_hash", key "channel"] rfl (by decide) ?_
  simp only [List.forall_mem_cons]
  exact ⟨plain_jsonText _, plain_jsonText _, plain_jsonText _, plain_jsonText _, plain_jsonNat h,
    plain_felt _, plain_jsonText _, by simp⟩

theorem JobMetrics.plain {m : JobMetrics} (h : m.Numbers ok) : PlainFor ok m.toJson := by
  obtain ⟨hexecution, hproving, hverification⟩ := h
  refine plain_obj [key "execution_ms", key "proving_ms", key "verification_ms"] rfl
    (by decide) ?_
  simp only [List.forall_mem_cons]
  exact ⟨plain_jsonNat hexecution, plain_jsonNat hproving, plain_jsonNat hverification, by simp⟩

theorem JobError.plain (e : JobError) : PlainFor ok e.toJson := by
  refine plain_obj [key "code", key "message"] rfl (by decide) ?_
  simp only [List.forall_mem_cons]
  exact ⟨plain_jsonText _, plain_jsonText _, by simp⟩

theorem JobResultContent.plain : ∀ {c : JobResultContent}, c.Numbers ok → PlainFor ok c.toJson
  | .success _ _ statement _ _, ⟨hsize, hmetrics⟩ => by
    refine plain_obj [key "status", key "protocol", key "request_id", key "statement", key "proof",
      key "metrics"] rfl (by decide) ?_
    simp only [List.forall_mem_cons]
    exact ⟨plain_jsonText _, plain_jsonText _, plain_jsonText _, statement.plain,
      ProofDescriptor.plain hsize, JobMetrics.plain hmetrics, by simp⟩
  | .error _ _ err, _ => by
    refine plain_obj [key "status", key "protocol", key "request_id", key "error"] rfl
      (by decide) ?_
    simp only [List.forall_mem_cons]
    exact ⟨plain_jsonText _, plain_jsonText _, plain_jsonText _, err.plain, by simp⟩

theorem JobOutput.toJson_injective : Function.Injective JobOutput.toJson := by
  have htext : ∀ s t : Text, jsonText s = jsonText t → s = t := fun _ _ h => jsonText_inj.mp h
  intro a b h
  cases a <;> cases b <;>
    simp only [toJson, Json.obj.injEq, members_inj, feltJson_inj, Json.bool.injEq, true_and,
      and_true] at h
  · rw [h]
  · exact absurd (htext _ _ h.1) (by decide)
  · exact absurd (htext _ _ h.1) (by decide)
  · exact absurd (htext _ _ h.1) (by decide)
  · rw [h]
  · exact absurd (htext _ _ h.1) (by decide)
  · exact absurd (htext _ _ h.1) (by decide)
  · exact absurd (htext _ _ h.1) (by decide)
  · rw [h]

theorem ProofStatement.toJson_injective : Function.Injective ProofStatement.toJson := by
  rintro ⟨service, program, inputs, outputs, output⟩ ⟨service', program', inputs', outputs', output'⟩ h
  simp only [toJson, Json.obj.injEq, members_inj, jsonText_inj, asStr_inj, Json.arr.injEq,
    feltsJson_inj, JobOutput.toJson_injective.eq_iff, and_true] at h
  obtain ⟨rfl, rfl, rfl, rfl, rfl⟩ := h
  rfl

theorem ProofDescriptor.toJson_injective : Function.Injective ProofDescriptor.toJson := by
  rintro ⟨format, media, url, sha, size, hash, channel⟩ ⟨format', media', url', sha', size', hash',
    channel'⟩ h
  simp only [toJson, Json.obj.injEq, members_inj, jsonText_inj, jsonNat_inj, feltJson_inj,
    and_true] at h
  obtain ⟨rfl, rfl, rfl, rfl, rfl, rfl, rfl⟩ := h
  rfl

theorem JobMetrics.toJson_injective : Function.Injective JobMetrics.toJson := by
  rintro ⟨execution, proving, verification⟩ ⟨execution', proving', verification'⟩ h
  simp only [toJson, Json.obj.injEq, members_inj, jsonNat_inj, and_true] at h
  obtain ⟨rfl, rfl, rfl⟩ := h
  rfl

theorem JobError.toJson_injective : Function.Injective JobError.toJson := by
  rintro ⟨code, message⟩ ⟨code', message'⟩ h
  simp only [toJson, Json.obj.injEq, members_inj, jsonText_inj, codeStr_inj, and_true] at h
  rw [h.1, h.2]

theorem JobResultContent.toJson_injective : Function.Injective JobResultContent.toJson := by
  intro a b h
  cases a with
  | success protocol id statement proof metrics =>
    cases b with
    | success protocol' id' statement' proof' metrics' =>
      simp only [toJson, Json.obj.injEq, members_inj, jsonText_inj,
        ProofStatement.toJson_injective.eq_iff, ProofDescriptor.toJson_injective.eq_iff,
        JobMetrics.toJson_injective.eq_iff, true_and, and_true] at h
      obtain ⟨rfl, rfl, rfl, rfl, rfl⟩ := h
      rfl
    | error _ _ _ => simp [toJson] at h
  | error protocol id err =>
    cases b with
    | success _ _ _ _ _ => simp [toJson] at h
    | error protocol' id' err' =>
      simp only [toJson, Json.obj.injEq, members_inj, jsonText_inj,
        JobError.toJson_injective.eq_iff, true_and, and_true] at h
      obtain ⟨rfl, rfl, rfl⟩ := h
      rfl

/-- The text of a result determines it. -/
theorem JobResultContent.toText_injective : Function.Injective JobResultContent.toText := by
  intro a b h
  have hplain : ∀ c : JobResultContent, PlainFor (fun _ => True) c.toJson := by
    intro c
    refine JobResultContent.plain ?_
    cases c with
    | success _ _ _ _ _ => exact ⟨trivial, trivial, trivial, trivial⟩
    | error _ _ _ => exact trivial
  exact toJson_injective (stringify_inj (hplain a) (hplain b) h)

/-! ### Events -/

/-- Every string of the tags is well formed. -/
def TagsPaired (tags : List (List JsString)) : Prop := ∀ tag ∈ tags, ∀ s ∈ tag, Paired s

theorem plain_tagsJson {tags : List (List JsString)} (h : TagsPaired tags) :
    PlainFor ok (tagsJson tags) := by
  refine plain_arr fun x hx => ?_
  obtain ⟨tag, htag, rfl⟩ := List.mem_map.mp hx
  refine plain_arr fun y hy => ?_
  obtain ⟨s, hs, rfl⟩ := List.mem_map.mp hy
  exact h tag htag s hs

theorem tagsJson_injective : Function.Injective tagsJson := by
  intro a b h
  rw [tagsJson, tagsJson, Json.arr.injEq] at h
  refine List.map_injective_iff.mpr ?_ h
  intro s t hst
  exact List.map_injective_iff.mpr (fun _ _ h => Json.str.inj h) (Json.arr.inj hst)

theorem tagsPaired_ofText (tags : List (List Text)) :
    TagsPaired (tags.map (List.map ofText)) := by
  intro tag htag s hs
  obtain ⟨t, -, rfl⟩ := List.mem_map.mp htag
  obtain ⟨u, -, rfl⟩ := List.mem_map.mp hs
  exact paired_ofText u

theorem ofText_tags_injective : Function.Injective (List.map (List.map ofText)) :=
  List.map_injective_iff.mpr (List.map_injective_iff.mpr ofText_injective)

/-- The text of an event is plain, and JavaScript reads it back when its numbers are safe. -/
theorem plain_eventJson {e : Event} (hcreated : ok e.created_at) (hkind : ok e.kind) :
    PlainFor ok (eventJson e) := by
  refine plain_obj [key "id", key "pubkey", key "created_at", key "kind", key "tags",
    key "content", key "sig"] rfl (by decide) ?_
  simp only [List.forall_mem_cons]
  exact ⟨plain_jsonText _, plain_jsonText _, plain_jsonNat hcreated, plain_jsonNat hkind,
    plain_tagsJson (tagsPaired_ofText e.tags), plain_jsonText _, plain_jsonText _, by simp⟩

theorem eventJson_injective : Function.Injective eventJson := by
  rintro ⟨id, pubkey, created, kind, tags, content, sig⟩ ⟨id', pubkey', created', kind', tags',
    content', sig'⟩ h
  simp only [eventJson, Json.obj.injEq, members_inj, jsonText_inj, jsonNat_inj,
    tagsJson_injective.eq_iff, ofText_tags_injective.eq_iff, and_true] at h
  obtain ⟨rfl, rfl, rfl, rfl, rfl, rfl, rfl⟩ := h
  rfl

/-- The NIP-01 text determines the event. -/
theorem eventText_injective : Function.Injective eventText := by
  intro a b h
  have hplain : ∀ e : Event, PlainFor (fun _ => True) (eventJson e) := fun e =>
    plain_eventJson trivial trivial
  exact eventJson_injective (stringify_inj (hplain a) (hplain b) h)

/-! ### Libraries that satisfy the laws -/

/-- Libraries that read exactly what the writers write, whatever events are authentic. -/
noncomputable def exactReaders (verify : Event → Bool) (parseUrl : Text → Option Url) :
    Libraries where
  verify := verify
  tryAsJson e := some (eventText e)
  fromJson := Function.partialInv eventText
  requestFromStr t := (Function.partialInv JobRequestContent.canonicalJson t).filter fun c =>
    c.Numbers IsU64
  resultFromStr := Function.partialInv JobResultContent.toText
  valueFromStr t := (Function.partialInv eventText t).map eventJson
  eventFromValue := Function.partialInv eventJson
  parseUrl := parseUrl

theorem exactReaders_lawful (verify : Event → Bool) (parseUrl : Text → Option Url) :
    (exactReaders verify parseUrl).Lawful where
  tryAsJson_eq _ _ := rfl
  fromJson_eventText e _ := Function.partialInv_left eventText_injective e
  requestFromStr_canonicalJson c h := by
    refine Option.filter_eq_some_iff.mpr
      ⟨Function.partialInv_left JobRequestContent.canonicalJson_injective c, ?_⟩
    exact decide_eq_true h
  requestFromStr_numbers t c h := of_decide_eq_true (Option.filter_eq_some_iff.mp h).2
  resultFromStr_toText c _ := Function.partialInv_left JobResultContent.toText_injective c
  valueFromStr_eventText e _ := by
    refine ⟨_, congrArg (Option.map eventJson) (Function.partialInv_left eventText_injective e),
      List.Perm.refl _, Function.partialInv_left eventJson_injective e⟩

/-- The readers when the authentic events are the listed ones. -/
noncomputable def exactLibraries (authentic : List Event) (parseUrl : Text → Option Url) :
    Libraries := exactReaders (fun e => e ∈ authentic) parseUrl

theorem exactLibraries_verify {authentic : List Event} {parseUrl : Text → Option Url} {e : Event} :
    (exactLibraries authentic parseUrl).verify e = true ↔ e ∈ authentic := decide_eq_true_iff

theorem exactLibraries_lawful (authentic : List Event) (parseUrl : Text → Option Url) :
    (exactLibraries authentic parseUrl).Lawful := exactReaders_lawful _ _

end SoulSociety.Core
