import SoulSociety.Sdk.Validation

/-! Signers of the SDK (`soul-sdk/src/signer.ts`). What a signer gets from its own environment is an
    argument of `signEvent`: the randomness of a signature, or the answers of a browser. -/

namespace SoulSociety.Sdk
open Lib SoulSociety.Core

/-! ### Events with the same fields -/

/-- The fields that an event id is made of. -/
structure SameFields (event event' : Event) : Prop where
  pubkey : event.pubkey = event'.pubkey
  created_at : event.created_at = event'.created_at
  kind : event.kind = event'.kind
  tags : stringifyTags event.tags = stringifyTags event'.tags
  content : event.content = event'.content

/-- Events that `assertSameEvent` takes for one. -/
structure SameEvent (event event' : Event) : Prop extends SameFields event event' where
  id : event.id = event'.id
  sig : event.sig = event'.sig

theorem assertSameEvent_eq_ok {actual expected : Event} :
    assertSameEvent actual expected = .ok () ↔ SameEvent actual expected := by
  rw [assertSameEvent, rejectIf_eq_ok]
  simp only [not_or, not_not]
  constructor
  · rintro ⟨hid, hpubkey, hcreated, hkind, hcontent, hsig, htags⟩
    exact ⟨⟨hpubkey, hcreated, hkind, htags, hcontent⟩, hid, hsig⟩
  · rintro ⟨⟨hpubkey, hcreated, hkind, htags, hcontent⟩, hid, hsig⟩
    exact ⟨hid, hpubkey, hcreated, hkind, hcontent, hsig, htags⟩

/-! ### Signers -/

/-- A `SoulSigner`, with the answers that its environment can give. -/
structure SoulSigner where
  Answer : Type
  signEvent : EventTemplate → Answer → Except JsError Event

/-- `InMemorySigner`: `finalizeEvent` of `nostr-tools` with its key and some randomness. Without
    randomness the key was destroyed. -/
def InMemorySigner (finalizeEvent : EventTemplate → ℕ → Event) : SoulSigner where
  Answer := Option ℕ
  signEvent template
    | none => .error (.other (js "This signer has been destroyed."))
    | some randomness => .ok (finalizeEvent template randomness)

/-- What a `Nip07Provider` answers. -/
structure Nip07Answer where
  getPublicKey : Except JsError JsString
  signEvent : Except JsError Event
  deriving DecidableEq

def Nip07Signer.getPublicKey (answer : Nip07Answer) : Except JsError JsString := do
  let publicKey ← answer.getPublicKey
  rejectIf (¬ isHex64 publicKey) (.other (js "The NIP-07 signer returned an invalid public key."))
  return publicKey

def Nip07Signer (P : Platform) : SoulSigner where
  Answer := Nip07Answer
  signEvent template answer := do
    let publicKey ← Nip07Signer.getPublicKey answer
    let signed ← answer.signEvent
    rejectIf (signed.pubkey ≠ publicKey ∨ signed.kind ≠ .nat template.kind ∨
        signed.created_at ≠ .nat template.created_at ∨ signed.content ≠ template.content ∨
        stringifyTags signed.tags ≠ stringifyTags template.tags ∨ ¬ P.verifyEvent signed)
      (.other (js "The NIP-07 signer changed or invalidated the Soul Wire request."))
    return signed

/-- `finalizeEvent` signs the template as it is. -/
structure Finalizes (P : Platform) (finalizeEvent : EventTemplate → ℕ → Event) : Prop where
  verified : ∀ t r, P.verifyEvent (finalizeEvent t r) = true
  kind : ∀ t r, (finalizeEvent t r).kind = .nat t.kind
  created_at : ∀ t r, (finalizeEvent t r).created_at = .nat t.created_at
  tags : ∀ t r, (finalizeEvent t r).tags = t.tags
  content : ∀ t r, (finalizeEvent t r).content = t.content

/-- The signers of the SDK. -/
inductive BuiltIn (P : Platform) : SoulSigner → Prop
  | inMemory {finalizeEvent : EventTemplate → ℕ → Event} (h : Finalizes P finalizeEvent) :
      BuiltIn P (InMemorySigner finalizeEvent)
  | nip07 : BuiltIn P (Nip07Signer P)

/-- The event carries the fields of the template. -/
structure Event.Signs (event : Event) (template : EventTemplate) : Prop where
  kind : event.kind = .nat template.kind
  created_at : event.created_at = .nat template.created_at
  tags : stringifyTags event.tags = stringifyTags template.tags
  content : event.content = template.content

/-- What a built-in signer returns is authentic and has the fields of the template. -/
theorem BuiltIn.signs {P : Platform} {signer : SoulSigner} (h : BuiltIn P signer)
    {template : EventTemplate} {answer : signer.Answer} {event : Event}
    (hsigned : signer.signEvent template answer = .ok event) :
    P.verifyEvent event = true ∧ event.Signs template := by
  cases h with
  | inMemory h =>
    cases answer with
    | none => cases hsigned
    | some randomness =>
      cases hsigned
      exact ⟨h.verified _ _, h.kind _ _, h.created_at _ _, congrArg _ (h.tags _ _), h.content _ _⟩
  | nip07 =>
    simp only [Nip07Signer, bind_eq_ok, rejectIf_eq_ok, pure_eq_ok, exists_unit, not_or, not_not]
      at hsigned
    obtain ⟨publicKey, -, signed, -, ⟨-, hkind, hcreated, hcontent, htags, hverify⟩, rfl⟩ := hsigned
    exact ⟨hverify, hkind, hcreated, htags, hcontent⟩

/-- A browser that signs the template as it is. -/
theorem Nip07Signer_signs {P : Platform} {template : EventTemplate} {event : Event}
    (hkey : isHex64 event.pubkey = true) (hverify : P.verifyEvent event = true)
    (h : event.Signs template) :
    (Nip07Signer P).signEvent template ⟨.ok event.pubkey, .ok event⟩ = .ok event := by
  simp only [Nip07Signer, Nip07Signer.getPublicKey, bind_eq_ok, rejectIf_eq_ok, pure_eq_ok,
    exists_unit, not_or, not_not]
  exact ⟨_, ⟨_, rfl, hkey, rfl⟩, _, rfl,
    ⟨rfl, h.kind, h.created_at, h.content, h.tags, hverify⟩, rfl⟩

end SoulSociety.Sdk
