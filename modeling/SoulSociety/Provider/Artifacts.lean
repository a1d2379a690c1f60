import SoulSociety.Lib.Linearizable
import SoulSociety.Lib.Run
import SoulSociety.Provider.Processor

/-! Content-addressed proof storage (`provider/src/artifacts.rs`): the store in memory, which performs
    one call at a time, and the store in a directory, whose calls interleave at every file operation.
    The hash is any function into digests. -/

namespace SoulSociety.Provider
open Lib SoulSociety.Core

abbrev Bytes := List UInt8

/-- What `sha256_hex` writes. -/
abbrev Digest := { sha256 : Text // isLowerHex sha256 64 = true }

/-- A proof is neither empty nor longer than the bound. -/
def SizeOk (length : ℕ) : Prop := length ≠ 0 ∧ length ≤ maxProofBytes

instance : DecidablePred SizeOk := fun _ => inferInstanceAs (Decidable (_ ∧ _))

/-- One error covers both ends. -/
def validateProofSize (length : ℕ) : Except ArtifactError Unit :=
  rejectIf (¬ SizeOk length) .invalidSize

/-- The two operations of a `ProofArtifactStore`. -/
inductive StoreOp where
  | put (proof : Bytes)
  | get (sha256 : Text)
  deriving DecidableEq

/-- What the two operations answer. -/
inductive StoreAnswer where
  | put (result : Except ArtifactError StoredArtifact)
  | get (result : Except ArtifactError (Option Bytes))
  deriving DecidableEq

/-- The metadata of stored bytes. -/
def storedArtifact (H : Bytes → Digest) (proof : Bytes) : StoredArtifact where
  sha256 := (H proof).val
  byte_size := proof.length

/-- A digest that is taken: repeating the bytes is idempotent, other bytes are refused. -/
def matchExisting (H : Bytes → Digest) (existing proof : Bytes) :
    Except ArtifactError StoredArtifact :=
  if existing ≠ proof then .error .digestCollisionOrCorruption else .ok (storedArtifact H proof)

/-! ### In memory -/

/-- Artifacts under their digests. -/
structure MemoryProofArtifactStore (H : Bytes → Digest) where
  artifacts : Text → Option Bytes
  addressed : ∀ sha256 proof, artifacts sha256 = some proof →
    (H proof).val = sha256 ∧ SizeOk proof.length

namespace MemoryProofArtifactStore

variable {H : Bytes → Digest}

/-- Nothing is stored yet. -/
def empty : MemoryProofArtifactStore H where
  artifacts _ := none
  addressed _ _ h := nomatch h

/-- The proof under its digest. -/
def insert (m : MemoryProofArtifactStore H) (proof : Bytes) (h : SizeOk proof.length) :
    MemoryProofArtifactStore H where
  artifacts sha256 := if sha256 = (H proof).val then some proof else m.artifacts sha256
  addressed sha256 bytes hbytes := by
    split at hbytes
    · rename_i heq
      cases hbytes
      exact ⟨heq.symm, h⟩
    · exact m.addressed sha256 bytes hbytes

/-- The size is checked first. A digest that is taken keeps its bytes. -/
def put (m : MemoryProofArtifactStore H) (proof : Bytes) :
    Except ArtifactError StoredArtifact × MemoryProofArtifactStore H :=
  if h : SizeOk proof.length then
    match m.artifacts (H proof).val with
    | some existing => (matchExisting H existing proof, m)
    | none => (.ok (storedArtifact H proof), m.insert proof h)
  else (.error .invalidSize, m)

/-- Text that is no digest has no artifact, and is no error. -/
def get (m : MemoryProofArtifactStore H) (sha256 : Text) : Except ArtifactError (Option Bytes) :=
  if isLowerHex sha256 64 then .ok (m.artifacts sha256) else .ok none

/-- One call after the other. -/
def perform (m : MemoryProofArtifactStore H) : StoreOp → StoreAnswer × MemoryProofArtifactStore H
  | .put proof => (.put (m.put proof).1, (m.put proof).2)
  | .get sha256 => (.get (m.get sha256), m)

end MemoryProofArtifactStore

/-! ### In a directory -/

/-- `{sha256}.json` and `.{sha256}.{pid}.{sequence}.tmp`. -/
inductive FileName where
  | artifact (sha256 : Text)
  | temporary (sha256 : Text) (sequence : ℕ)
  deriving DecidableEq

/-- Names and the files that they link to. Nobody else writes here. -/
structure Directory where
  names : FileName → Option ℕ
  files : List Bytes

namespace Directory

/-- No names and no files. -/
def empty : Directory := ⟨fun _ => none, []⟩

/-- The bytes of the file that a name links to. -/
def content (dir : Directory) (name : FileName) : Option Bytes :=
  (dir.names name).bind fun inode => dir.files[inode]?

/-- `create_new`: a new empty file, unless the name is taken. -/
def createNew (dir : Directory) (name : FileName) : Option (Directory × ℕ) :=
  match dir.names name with
  | some _ => none
  | none => some (⟨fun n => if n = name then some dir.files.length else dir.names n,
      dir.files ++ [[]]⟩, dir.files.length)

/-- Append to an open file. -/
def append (dir : Directory) (inode : ℕ) (bytes : Bytes) : Directory :=
  { dir with files := dir.files.modify inode (· ++ bytes) }

/-- `hard_link` to an open file, unless the name is taken. -/
def hardLink (dir : Directory) (inode : ℕ) (name : FileName) : Option Directory :=
  match dir.names name with
  | some _ => none
  | none => some { dir with names := fun n => if n = name then some inode else dir.names n }

/-- A name goes; an open file keeps its bytes. -/
def removeFile (dir : Directory) (name : FileName) : Directory :=
  { dir with names := fun n => if n = name then none else dir.names n }

end Directory

namespace FileProofArtifactStore

/-- How far a read of an artifact is. -/
inductive Lookup where
  | metadata
  | reading
  deriving DecidableEq

/-- How far a call of `get` is. -/
inductive GetPhase where
  | started
  | looking (l : Lookup)
  | returned (result : Except ArtifactError (Option Bytes))
  deriving DecidableEq

/-- How far a call of `put` is, with the temporary file that it has open. -/
inductive PutPhase where
  | started
  | checking (l : Lookup)
  | creating
  | writing (sequence inode : ℕ) (rest : Bytes)
  | linking (sequence inode : ℕ)
  | rechecking (sequence : ℕ) (l : Lookup)
  | unlinking (sequence : ℕ) (result : Except ArtifactError StoredArtifact)
  | returned (result : Except ArtifactError StoredArtifact)
  deriving DecidableEq

/-- A call and how far it is. -/
inductive StoreCall where
  | get (sha256 : Text) (phase : GetPhase)
  | put (proof : Bytes) (phase : PutPhase)
  deriving DecidableEq

/-- The next file operation of a read: `symlink_metadata` or `read`. -/
def Lookup.run (H : Bytes → Digest) (dir : Directory) (sha256 : Text) :
    Lookup → Lookup ⊕ Except ArtifactError (Option Bytes)
  | .metadata =>
    match dir.content (.artifact sha256) with
    | none => .inr (.ok none)
    | some bytes =>
      if ¬ SizeOk bytes.length then .inr (.error .digestCollisionOrCorruption) else .inl .reading
  | .reading =>
    match dir.content (.artifact sha256) with
    | none => .inr (.error .io)
    | some bytes => .inr (do
      validateProofSize bytes.length
      rejectIf ((H bytes).val ≠ sha256) .digestCollisionOrCorruption
      return some bytes)

/-- The next operation of a get. -/
def GetPhase.run (H : Bytes → Digest) (dir : Directory) (sha256 : Text) : GetPhase → Option GetPhase
  | .started => some (if isLowerHex sha256 64 then .looking .metadata else .returned (.ok none))
  | .looking l =>
    match l.run H dir sha256 with
    | .inl l => some (.looking l)
    | .inr result => some (.returned result)
  | .returned _ => none

/-- The next operation of a put, which may change the directory and the sequence of temporary names.
    A write may be partial: it writes `n` bytes of what is left. -/
def PutPhase.run (H : Bytes → Digest) (proof : Bytes) (n : ℕ) (dir : Directory) (sequence : ℕ) :
    PutPhase → Option (Directory × ℕ × PutPhase)
  | .started =>
    match validateProofSize proof.length with
    | .error e => some (dir, sequence, .returned (.error e))
    | .ok () => some (dir, sequence, .checking .metadata)
  | .checking l =>
    match l.run H dir (H proof).val with
    | .inl l => some (dir, sequence, .checking l)
    | .inr (.error e) => some (dir, sequence, .returned (.error e))
    | .inr (.ok (some existing)) => some (dir, sequence, .returned (matchExisting H existing proof))
    | .inr (.ok none) => some (dir, sequence, .creating)
  | .creating =>
    match dir.createNew (.temporary (H proof).val sequence) with
    | none => some (dir, sequence + 1, .unlinking sequence (.error .io))
    | some (dir, inode) => some (dir, sequence + 1, .writing sequence inode proof)
  | .writing temporary inode [] => some (dir, sequence, .linking temporary inode)
  | .writing temporary inode rest =>
    some (dir.append inode (rest.take n), sequence, .writing temporary inode (rest.drop n))
  | .linking temporary inode =>
    match dir.hardLink inode (.artifact (H proof).val) with
    | some dir => some (dir, sequence, .unlinking temporary (.ok (storedArtifact H proof)))
    | none => some (dir, sequence, .rechecking temporary .metadata)
  | .rechecking temporary l =>
    match l.run H dir (H proof).val with
    | .inl l => some (dir, sequence, .rechecking temporary l)
    | .inr (.error e) => some (dir, sequence, .unlinking temporary (.error e))
    | .inr (.ok (some existing)) =>
      some (dir, sequence, .unlinking temporary (matchExisting H existing proof))
    | .inr (.ok none) =>
      some (dir, sequence, .unlinking temporary (.error .digestCollisionOrCorruption))
  | .unlinking temporary result =>
    some (dir.removeFile (.temporary (H proof).val temporary), sequence, .returned result)
  | .returned _ => none

namespace StoreCall

/-- A call before its first operation. -/
def start : StoreOp → StoreCall
  | .get sha256 => .get sha256 .started
  | .put proof => .put proof .started

/-- The operation that was called. -/
def op : StoreCall → StoreOp
  | .get sha256 _ => .get sha256
  | .put proof _ => .put proof

/-- What the caller got. -/
def response : StoreCall → Option StoreAnswer
  | .get _ (.returned result) => some (.get result)
  | .put _ (.returned result) => some (.put result)
  | _ => none

end StoreCall

end FileProofArtifactStore

open FileProofArtifactStore in
/-- The directory, the sequence of temporary names, the calls, and what their callers saw. -/
structure FileProofArtifactStore where
  directory : Directory
  sequence : ℕ
  calls : List StoreCall
  log : List (Point StoreOp StoreAnswer)

namespace FileProofArtifactStore

/-- An empty directory. -/
def new : FileProofArtifactStore := ⟨.empty, 0, [], []⟩

/-- A call is made, or performs its next file operation. -/
inductive Label where
  | invoke (op : StoreOp)
  | run (call n : ℕ)

/-- A call moves on. What it returns is seen. -/
def setCall (s : FileProofArtifactStore) (i : ℕ) (c : StoreCall) (dir : Directory)
    (sequence : ℕ) : FileProofArtifactStore where
  directory := dir
  sequence := sequence
  calls := s.calls.set i c
  log := s.log ++ (c.response.map (.respond i)).toList

/-- One file operation of one call. -/
def step (H : Bytes → Digest) (s : FileProofArtifactStore) : Label → Option FileProofArtifactStore
  | .invoke op => some { s with
      calls := s.calls ++ [.start op]
      log := s.log ++ [.invoke s.calls.length op] }
  | .run i n =>
    match s.calls[i]? with
    | some (.get sha256 phase) =>
      (phase.run H s.directory sha256).map fun phase =>
        s.setCall i (.get sha256 phase) s.directory s.sequence
    | some (.put proof phase) =>
      (phase.run H proof n s.directory s.sequence).map fun r =>
        s.setCall i (.put proof r.2.2) r.1 r.2.1
    | none => none

end FileProofArtifactStore

/-! ### Small facts -/

@[simp] theorem validateProofSize_eq_ok {length : ℕ} {u : Unit} :
    validateProofSize length = .ok u ↔ SizeOk length := by
  simp [validateProofSize]

theorem validateProofSize_eq_error {length : ℕ} {e : ArtifactError} :
    validateProofSize length = .error e ↔ ¬ SizeOk length ∧ .invalidSize = e := rejectIf_eq_error

namespace MemoryProofArtifactStore

variable {H : Bytes → Digest} {m m' : MemoryProofArtifactStore H} {proof existing : Bytes}
  {sha256 : Text}

/-- Nothing that is stored is lost or changed. -/
def Extends (m m' : MemoryProofArtifactStore H) : Prop :=
  ∀ sha256 bytes, m.artifacts sha256 = some bytes → m'.artifacts sha256 = some bytes

theorem Extends.refl (m : MemoryProofArtifactStore H) : m.Extends m := fun _ _ h => h

theorem put_of_not_sizeOk (h : ¬ SizeOk proof.length) : m.put proof = (.error .invalidSize, m) := by
  rw [put, dif_neg h]

theorem put_of_some (h : SizeOk proof.length) (hm : m.artifacts (H proof).val = some existing) :
    m.put proof = (matchExisting H existing proof, m) := by
  rw [put, dif_pos h, hm]

theorem put_of_none (h : SizeOk proof.length) (hm : m.artifacts (H proof).val = none) :
    m.put proof = (.ok (storedArtifact H proof), m.insert proof h) := by
  rw [put, dif_pos h, hm]

theorem get_of_lowerHex (h : isLowerHex sha256 64 = true) :
    m.get sha256 = .ok (m.artifacts sha256) := if_pos h

theorem insert_artifacts (h : SizeOk proof.length) : (m.insert proof h).artifacts sha256 =
    if sha256 = (H proof).val then some proof else m.artifacts sha256 := rfl

theorem extends_insert (h : SizeOk proof.length) (hm : m.artifacts (H proof).val = none) :
    m.Extends (m.insert proof h) := by
  intro sha256 bytes hbytes
  rw [insert_artifacts, if_neg, hbytes]
  rintro rfl
  rw [hm] at hbytes
  cases hbytes

/-- No call changes what is stored. -/
theorem extends_perform (m : MemoryProofArtifactStore H) (op : StoreOp) :
    m.Extends (m.perform op).2 := by
  cases op with
  | get sha256 => exact .refl m
  | put proof =>
    by_cases h : SizeOk proof.length
    · cases hm : m.artifacts (H proof).val with
      | some existing =>
        rw [perform, put_of_some h hm]
        exact .refl m
      | none =>
        rw [perform, put_of_none h hm]
        exact extends_insert h hm
    · rw [perform, put_of_not_sizeOk h]
      exact .refl m

/-- What is stored after a call was stored before it, or was put by it. -/
theorem artifacts_perform {op : StoreOp} {bytes : Bytes}
    (h : (m.perform op).2.artifacts sha256 = some bytes) :
    m.artifacts sha256 = some bytes ∨ op = .put bytes := by
  cases op with
  | get sha256' => exact Or.inl h
  | put proof =>
    by_cases hsize : SizeOk proof.length
    · cases hm : m.artifacts (H proof).val with
      | some existing =>
        rw [perform, put_of_some hsize hm] at h
        exact Or.inl h
      | none =>
        rw [perform, put_of_none hsize hm, insert_artifacts] at h
        split at h
        · cases h
          exact Or.inr rfl
        · exact Or.inl h
    · rw [perform, put_of_not_sizeOk hsize] at h
      exact Or.inl h

/-- A put that fails stores nothing. -/
theorem put_error {e : ArtifactError} (h : (m.put proof).1 = .error e) : (m.put proof).2 = m := by
  by_cases hsize : SizeOk proof.length
  · cases hm : m.artifacts (H proof).val with
    | some existing => rw [put_of_some hsize hm]
    | none => rw [put_of_none hsize hm] at h; cases h
  · rw [put_of_not_sizeOk hsize]

/-- A put that succeeds leaves its bytes under their digest. -/
theorem put_ok {stored : StoredArtifact} (h : (m.put proof).1 = .ok stored) :
    stored = storedArtifact H proof ∧ (m.put proof).2.artifacts (H proof).val = some proof := by
  by_cases hsize : SizeOk proof.length
  · cases hm : m.artifacts (H proof).val with
    | some existing =>
      rw [put_of_some hsize hm] at h ⊢
      by_cases heq : existing = proof
      · simp only [matchExisting, heq, ne_eq, not_true, if_false, Except.ok.injEq] at h
        exact ⟨h.symm, heq ▸ hm⟩
      · simp [matchExisting, heq] at h
    | none =>
      rw [put_of_none hsize hm] at h ⊢
      cases h
      exact ⟨rfl, by rw [insert_artifacts, if_pos rfl]⟩
  · rw [put_of_not_sizeOk hsize] at h
    cases h

end MemoryProofArtifactStore

namespace Directory

variable {dir dir' : Directory} {name n : FileName} {inode k : ℕ} {bytes : Bytes}

theorem createNew_eq_some (h : dir.createNew name = some (dir', inode)) :
    dir.names name = none ∧ inode = dir.files.length ∧ dir'.files = dir.files ++ [[]] ∧
      ∀ n, dir'.names n = if n = name then some dir.files.length else dir.names n := by
  rw [createNew] at h
  split at h
  · cases h
  · rename_i hnone
    cases h
    exact ⟨hnone, rfl, rfl, fun _ => rfl⟩

theorem hardLink_eq_some (h : dir.hardLink inode name = some dir') :
    dir.names name = none ∧ dir'.files = dir.files ∧
      ∀ n, dir'.names n = if n = name then some inode else dir.names n := by
  rw [hardLink] at h
  split at h
  · cases h
  · rename_i hnone
    cases h
    exact ⟨hnone, rfl, fun _ => rfl⟩

theorem hardLink_eq_none (h : dir.hardLink inode name = none) : dir.names name ≠ none := by
  rw [hardLink] at h
  split at h
  · rename_i hsome
    rw [hsome]
    exact nofun
  · cases h

theorem names_removeFile : (dir.removeFile name).names n =
    if n = name then none else dir.names n := rfl

theorem files_append : (dir.append inode bytes).files[k]? =
    if inode = k then dir.files[k]?.map (· ++ bytes) else dir.files[k]? := by
  rw [append, List.getElem?_modify]
  split
  · rfl
  · simp

end Directory

end SoulSociety.Provider
