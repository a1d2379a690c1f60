import SoulSociety.Provider.Artifacts

/-! The store in a directory does what the store in memory does. A read takes effect when it looks at
    the metadata, a put when it finds the digest taken or links its file; until then its file is its
    own, and afterwards nobody writes to it. -/

namespace SoulSociety.Provider.FileProofArtifactStore
open Lib SoulSociety.Core

variable {H : Bytes → Digest} {m m' : MemoryProofArtifactStore H} {dir dir' : Directory}
  {s s' : FileProofArtifactStore} {order order' : List (ℕ × StoreOp × StoreAnswer)}
  {i j k sequence : ℕ} {c c' : StoreCall}

/-! ### When a call takes effect -/

/-- The answer of a read that has taken effect. -/
def GetPhase.settled (m : MemoryProofArtifactStore H) (sha256 : Text) :
    GetPhase → Option (Except ArtifactError (Option Bytes))
  | .started => none
  | .looking .metadata => none
  | .looking .reading => some (m.get sha256)
  | .returned result => some result

/-- The answer of a put that has taken effect. -/
def PutPhase.settled (m : MemoryProofArtifactStore H) (proof : Bytes) :
    PutPhase → Option (Except ArtifactError StoredArtifact)
  | .started => none
  | .checking .metadata => none
  | .checking .reading => some (m.put proof).1
  | .creating => none
  | .writing _ _ _ => none
  | .linking _ _ => none
  | .rechecking _ _ => some (m.put proof).1
  | .unlinking _ result => some result
  | .returned result => some result

def StoreCall.settled (m : MemoryProofArtifactStore H) : StoreCall → Option StoreAnswer
  | .get sha256 phase => (phase.settled m sha256).map .get
  | .put proof phase => (phase.settled m proof).map .put

/-- What a read knows. -/
def GetPhase.Ok (m : MemoryProofArtifactStore H) (sha256 : Text) : GetPhase → Prop
  | .started => True
  | .looking .metadata => isLowerHex sha256 64 = true
  | .looking .reading => isLowerHex sha256 64 = true ∧ ∃ bytes, m.artifacts sha256 = some bytes
  | .returned _ => True

/-- What a put knows: its file holds what it has written. -/
def PutPhase.Ok (m : MemoryProofArtifactStore H) (dir : Directory) (proof : Bytes) : PutPhase → Prop
  | .started => True
  | .checking .metadata => SizeOk proof.length
  | .checking .reading =>
    SizeOk proof.length ∧ ∃ existing, m.artifacts (H proof).val = some existing
  | .creating => SizeOk proof.length
  | .writing _ inode rest =>
    SizeOk proof.length ∧ ∃ written, dir.files[inode]? = some written ∧ written ++ rest = proof
  | .linking _ inode => SizeOk proof.length ∧ dir.files[inode]? = some proof
  | .rechecking _ _ => SizeOk proof.length ∧ ∃ existing, m.artifacts (H proof).val = some existing
  | .unlinking _ _ => True
  | .returned _ => True

def StoreCall.Ok (m : MemoryProofArtifactStore H) (dir : Directory) : StoreCall → Prop
  | .get sha256 phase => phase.Ok m sha256
  | .put proof phase => phase.Ok m dir proof

/-- The file that a call has made and not linked. -/
def StoreCall.inode : StoreCall → Option ℕ
  | .put _ (.writing _ inode _) => some inode
  | .put _ (.linking _ inode) => some inode
  | _ => none

/-- A call that has taken effect is in the order with its answer. -/
def Settles (order : List (ℕ × StoreOp × StoreAnswer)) (m : MemoryProofArtifactStore H) (i : ℕ)
    (c : StoreCall) : Prop :=
  match c.settled m with
  | none => i ∉ order.map Prod.fst
  | some answer => (i, c.op, answer) ∈ order

theorem StoreCall.settled_of_response {answer : StoreAnswer} (h : c.response = some answer) :
    c.settled m = some answer := by
  unfold StoreCall.response at h
  split at h
  · exact h
  · exact h
  · cases h

/-- What a call knows, and what it will answer, does not depend on what others store. -/
theorem StoreCall.Ok.extends (h : c.Ok m dir) (hext : m.Extends m')
    (hfile : ∀ k, c.inode = some k → dir'.files[k]? = dir.files[k]?) :
    c.Ok m' dir' ∧ c.settled m' = c.settled m := by
  cases c with
  | get sha256 phase =>
    cases phase with
    | started => exact ⟨trivial, rfl⟩
    | returned result => exact ⟨trivial, rfl⟩
    | looking l =>
      cases l with
      | metadata => exact ⟨h, rfl⟩
      | reading =>
        obtain ⟨hhex, bytes, hbytes⟩ := h
        refine ⟨⟨hhex, bytes, hext _ _ hbytes⟩, ?_⟩
        simp only [settled, GetPhase.settled, MemoryProofArtifactStore.get_of_lowerHex hhex, hbytes,
          hext _ _ hbytes]
  | put proof phase =>
    have hput : ∀ existing, SizeOk proof.length → m.artifacts (H proof).val = some existing →
        (m'.put proof).1 = (m.put proof).1 := by
      intro existing hsize hsome
      rw [MemoryProofArtifactStore.put_of_some hsize hsome,
        MemoryProofArtifactStore.put_of_some hsize (hext _ _ hsome)]
    cases phase with
    | started => exact ⟨trivial, rfl⟩
    | creating => exact ⟨h, rfl⟩
    | unlinking temporary result => exact ⟨trivial, rfl⟩
    | returned result => exact ⟨trivial, rfl⟩
    | checking l =>
      cases l with
      | metadata => exact ⟨h, rfl⟩
      | reading =>
        obtain ⟨hsize, existing, hsome⟩ := h
        refine ⟨⟨hsize, existing, hext _ _ hsome⟩, ?_⟩
        simp only [settled, PutPhase.settled, hput existing hsize hsome]
    | rechecking temporary l =>
      obtain ⟨hsize, existing, hsome⟩ := h
      refine ⟨⟨hsize, existing, hext _ _ hsome⟩, ?_⟩
      simp only [settled, PutPhase.settled, hput existing hsize hsome]
    | writing temporary inode rest =>
      obtain ⟨hsize, written, hwritten, hrest⟩ := h
      exact ⟨⟨hsize, written, (hfile inode rfl).trans hwritten, hrest⟩, rfl⟩
    | linking temporary inode =>
      obtain ⟨hsize, hwritten⟩ := h
      exact ⟨⟨hsize, (hfile inode rfl).trans hwritten⟩, rfl⟩

/-! ### The simulation -/

/-- The directory holds what the store in memory holds, after the same calls in some order. -/
structure Simulates (H : Bytes → Digest) (s : FileProofArtifactStore)
    (order : List (ℕ × StoreOp × StoreAnswer)) (m : MemoryProofArtifactStore H) : Prop where
  linearized : Linearized MemoryProofArtifactStore.perform .empty s.log order m
  content : ∀ sha256, s.directory.content (.artifact sha256) = m.artifacts sha256
  made : ∀ i op, .invoke i op ∈ s.log → ∃ c, s.calls[i]? = some c ∧ c.op = op
  call : ∀ i c, s.calls[i]? = some c →
    .invoke i c.op ∈ s.log ∧ c.Ok m s.directory ∧ Settles order m i c
  bounded : ∀ name k, s.directory.names name = some k → k < s.directory.files.length
  unused : ∀ sha256 n, s.sequence ≤ n → s.directory.names (.temporary sha256 n) = none
  unlinked : ∀ (i : ℕ) (c : StoreCall) k, s.calls[i]? = some c → c.inode = some k →
    ∀ sha256, s.directory.names (.artifact sha256) ≠ some k
  alone : ∀ (i j : ℕ) (c c' : StoreCall) k, s.calls[i]? = some c → s.calls[j]? = some c' → c.inode = some k →
    c'.inode = some k → i = j

/-- What a call may do to the directory: it leaves the files of the others alone. -/
structure Frame (s : FileProofArtifactStore) (i : ℕ) (c : StoreCall) (dir : Directory)
    (sequence : ℕ) : Prop where
  bounded : ∀ name k, dir.names name = some k → k < dir.files.length
  unused : ∀ sha256 n, sequence ≤ n → dir.names (.temporary sha256 n) = none
  own : ∀ k, c.inode = some k → ∀ sha256, dir.names (.artifact sha256) ≠ some k
  others : ∀ (j : ℕ) (c' : StoreCall) k, j ≠ i → s.calls[j]? = some c' → c'.inode = some k →
    dir.files[k]? = s.directory.files[k]? ∧ (∀ sha256, dir.names (.artifact sha256) ≠ some k) ∧
      c.inode ≠ some k

/-- A call that moves on, and maybe takes effect. -/
theorem Simulates.move (h : Simulates H s order m) (hcall : s.calls[i]? = some c)
    (hframe : Frame s i c' dir sequence) (hop : c'.op = c.op) (hext : m.Extends m')
    (hlin : Linearized MemoryProofArtifactStore.perform .empty s.log order' m')
    (hother : ∀ x, x.1 ≠ i → (x ∈ order' ↔ x ∈ order))
    (hcontent : ∀ sha256, dir.content (.artifact sha256) = m'.artifacts sha256)
    (hok : c'.Ok m' dir) (hsettles : Settles order' m' i c') :
    Simulates H (s.setCall i c' dir sequence) order' m' := by
  have hget : ∀ j d, (s.calls.set i c')[j]? = some d →
      j = i ∧ d = c' ∨ j ≠ i ∧ s.calls[j]? = some d := by
    intro j d hd
    by_cases hji : j = i
    · subst hji
      rw [List.getElem?_set_self (List.getElem?_eq_some_iff.mp hcall).1] at hd
      exact Or.inl ⟨rfl, (Option.some.inj hd).symm⟩
    · rw [List.getElem?_set_ne (Ne.symm hji)] at hd
      exact Or.inr ⟨hji, hd⟩
  have hlog : Linearized MemoryProofArtifactStore.perform .empty
      (s.log ++ (c'.response.map (.respond i)).toList) order' m' := by
    cases hres : c'.response with
    | none => simpa using hlin
    | some answer =>
      rw [Settles, StoreCall.settled_of_response hres] at hsettles
      exact hlin.respond hsettles
  refine ⟨hlog, hcontent, ?_, ?_, hframe.bounded, hframe.unused, ?_, ?_⟩
  · intro j op hj
    have hj : .invoke j op ∈ s.log := by
      rcases List.mem_append.mp hj with hj | hj
      · exact hj
      · cases hres : c'.response <;> simp [hres] at hj
    obtain ⟨d, hd, rfl⟩ := h.made j op hj
    by_cases hji : j = i
    · subst hji
      cases hcall.symm.trans hd
      exact ⟨c', List.getElem?_set_self (List.getElem?_eq_some_iff.mp hcall).1, hop⟩
    · exact ⟨d, (List.getElem?_set_ne (Ne.symm hji)).trans hd, rfl⟩
  · intro j d hd
    rcases hget j d hd with ⟨rfl, rfl⟩ | ⟨hji, hd⟩
    · rw [hop]
      exact ⟨List.mem_append_left _ (h.call _ c hcall).1, hok, hsettles⟩
    · obtain ⟨hinvoked, hdok, hdsettles⟩ := h.call j d hd
      obtain ⟨hdok', hsame⟩ := hdok.extends hext fun k hk => (hframe.others j d k hji hd hk).1
      refine ⟨List.mem_append_left _ hinvoked, hdok', ?_⟩
      rw [Settles, hsame]
      rw [Settles] at hdsettles
      cases hset : d.settled m with
      | none =>
        rw [hset] at hdsettles
        rintro hmem
        obtain ⟨x, hx, hxj⟩ := List.mem_map.mp hmem
        exact hdsettles (List.mem_map.mpr ⟨x, (hother x (hxj ▸ hji)).mp hx, hxj⟩)
      | some answer =>
        rw [hset] at hdsettles
        exact (hother (j, d.op, answer) hji).mpr hdsettles
  · intro j d k hd hk
    rcases hget j d hd with ⟨rfl, rfl⟩ | ⟨hji, hd⟩
    · exact hframe.own k hk
    · exact (hframe.others j d k hji hd hk).2.1
  · intro j j' d d' k hd hd' hk hk'
    rcases hget j d hd with ⟨rfl, rfl⟩ | ⟨hji, hold⟩ <;>
      rcases hget j' d' hd' with ⟨rfl, rfl⟩ | ⟨hji', hold'⟩
    · rfl
    · exact absurd hk (hframe.others j' d' k hji' hold' hk').2.2
    · exact absurd hk' (hframe.others j d k hji hold hk).2.2
    · exact h.alone j j' d d' k hold hold' hk hk'

/-- A call that stays as far as it was, to its callers. -/
theorem Simulates.stay (h : Simulates H s order m) (hcall : s.calls[i]? = some c)
    (hframe : Frame s i c' dir sequence) (hop : c'.op = c.op)
    (hcontent : ∀ sha256, dir.content (.artifact sha256) = m.artifacts sha256)
    (hok : c'.Ok m dir) (hsettled : c'.settled m = c.settled m) :
    Simulates H (s.setCall i c' dir sequence) order m := by
  refine h.move hcall hframe hop (.refl m) h.linearized (fun _ _ => Iff.rfl) hcontent hok ?_
  have hsettles := (h.call i c hcall).2.2
  rw [Settles] at hsettles ⊢
  rw [hsettled, hop]
  exact hsettles

/-- A call that takes effect. -/
theorem Simulates.commit (h : Simulates H s order m) (hcall : s.calls[i]? = some c)
    (hframe : Frame s i c' dir sequence) (hop : c'.op = c.op)
    (hcontent : ∀ sha256, dir.content (.artifact sha256) = (m.perform c.op).2.artifacts sha256)
    (hok : c'.Ok (m.perform c.op).2 dir) (hnone : c.settled m = none)
    (hsettled : c'.settled (m.perform c.op).2 = some (m.perform c.op).1) :
    Simulates H (s.setCall i c' dir sequence) (order ++ [(i, c.op, (m.perform c.op).1)])
      (m.perform c.op).2 := by
  obtain ⟨hinvoked, -, hsettles⟩ := h.call i c hcall
  rw [Settles, hnone] at hsettles
  refine h.move hcall hframe hop (MemoryProofArtifactStore.extends_perform m c.op)
    (h.linearized.commit hinvoked hsettles) ?_ hcontent hok ?_
  · intro x hx
    refine ⟨fun hmem => ?_, List.mem_append_left _⟩
    rcases List.mem_append.mp hmem with hmem | hmem
    · exact hmem
    · rw [List.mem_singleton.mp hmem] at hx
      exact absurd rfl hx
  · rw [Settles, hsettled, hop]
    exact List.mem_append_right _ (List.mem_singleton_self _)

/-! ### What a call does to the directory -/

/-- The file of a call exists. -/
theorem Simulates.file_exists (h : Simulates H s order m) (hcall : s.calls[i]? = some c)
    (hk : c.inode = some k) : k < s.directory.files.length := by
  have hok := (h.call i c hcall).2.1
  unfold StoreCall.inode at hk
  split at hk
  · cases hk
    obtain ⟨-, written, hwritten, -⟩ := hok
    exact (List.getElem?_eq_some_iff.mp hwritten).1
  · cases hk
    exact (List.getElem?_eq_some_iff.mp hok.2).1
  · cases hk

theorem Frame.silent (h : Simulates H s order m) (hcall : s.calls[i]? = some c)
    (hinode : ∀ k, c'.inode = some k → c.inode = some k) :
    Frame s i c' s.directory s.sequence where
  bounded := h.bounded
  unused := h.unused
  own k hk := h.unlinked i c k hcall (hinode k hk)
  others j d k hji hd hk := by
    refine ⟨rfl, h.unlinked j d k hd hk, fun hc' => ?_⟩
    exact hji (h.alone j i d c k hd hcall hk (hinode k hc'))

theorem Frame.create {sha256 : Text} (h : Simulates H s order m)
    (hnew : s.directory.createNew (.temporary sha256 s.sequence) = some (dir, k))
    (hinode : c'.inode = some k) : Frame s i c' dir (s.sequence + 1) := by
  obtain ⟨-, rfl, hfiles, hnames⟩ := Directory.createNew_eq_some hnew
  have hartifact : ∀ sha256', dir.names (.artifact sha256') =
      s.directory.names (.artifact sha256') := fun sha256' => by rw [hnames, if_neg nofun]
  refine ⟨?_, ?_, ?_, ?_⟩
  · intro name k hk
    rw [hfiles, List.length_append, List.length_singleton]
    rw [hnames] at hk
    split at hk
    · cases hk
      exact Nat.lt_succ_self _
    · exact Nat.lt_succ_of_lt (h.bounded name k hk)
  · intro sha256' n hn
    rw [hnames, if_neg, h.unused sha256' n (Nat.le_of_succ_le hn)]
    rintro heq
    cases heq
    exact Nat.not_succ_le_self _ hn
  · intro k hk sha256' hname
    cases hinode.symm.trans hk
    rw [hartifact] at hname
    exact Nat.lt_irrefl _ (h.bounded _ _ hname)
  · intro j d k hji hd hk
    have hlt := h.file_exists hd hk
    refine ⟨by rw [hfiles, List.getElem?_append_left hlt], ?_, ?_⟩
    · intro sha256' hname
      rw [hartifact] at hname
      exact h.unlinked j d k hd hk sha256' hname
    · intro hc'
      cases hinode.symm.trans hc'
      exact Nat.lt_irrefl _ hlt

theorem Frame.write {bytes : Bytes} (h : Simulates H s order m) (hcall : s.calls[i]? = some c)
    (hc : c.inode = some k) (hinode : c'.inode = some k) :
    Frame s i c' (s.directory.append k bytes) s.sequence where
  bounded name k' hk' := by
    rw [Directory.append, List.length_modify]
    exact h.bounded name k' hk'
  unused := h.unused
  own k' hk' := h.unlinked i c k' hcall (hc.trans (hinode.symm.trans hk'))
  others j d k' hji hd hk' := by
    have hne : k ≠ k' := by
      rintro rfl
      exact hji (h.alone j i d c k hd hcall hk' hc)
    refine ⟨by rw [Directory.files_append, if_neg hne], h.unlinked j d k' hd hk', fun hc' => ?_⟩
    exact hne (Option.some.inj (hinode.symm.trans hc'))

theorem Frame.link {sha256 : Text} (h : Simulates H s order m) (hcall : s.calls[i]? = some c)
    (hc : c.inode = some k) (hlink : s.directory.hardLink k (.artifact sha256) = some dir)
    (hinode : c'.inode = none) : Frame s i c' dir s.sequence := by
  obtain ⟨-, hfiles, hnames⟩ := Directory.hardLink_eq_some hlink
  refine ⟨?_, ?_, ?_, ?_⟩
  · intro name k' hk'
    rw [hfiles]
    rw [hnames] at hk'
    split at hk'
    · cases hk'
      exact h.file_exists hcall hc
    · exact h.bounded name k' hk'
  · intro sha256' n hn
    rw [hnames, if_neg nofun, h.unused sha256' n hn]
  · intro k' hk'
    rw [hinode] at hk'
    cases hk'
  · intro j d k' hji hd hk'
    refine ⟨by rw [hfiles], ?_, by rw [hinode]; exact nofun⟩
    intro sha256' hname
    rw [hnames] at hname
    split at hname
    · cases hname
      exact hji (h.alone j i d c k hd hcall hk' hc)
    · exact h.unlinked j d k' hd hk' sha256' hname

theorem Frame.unlink {sha256 : Text} {n : ℕ} (h : Simulates H s order m)
    (hinode : c'.inode = none) :
    Frame s i c' (s.directory.removeFile (.temporary sha256 n)) s.sequence := by
  have hartifact : ∀ sha256', (s.directory.removeFile (.temporary sha256 n)).names
      (.artifact sha256') = s.directory.names (.artifact sha256') := fun sha256' => by
    rw [Directory.names_removeFile, if_neg nofun]
  refine ⟨?_, ?_, ?_, ?_⟩
  · intro name k' hk'
    rw [Directory.names_removeFile] at hk'
    split at hk'
    · cases hk'
    · exact h.bounded name k' hk'
  · intro sha256' n' hn'
    rw [Directory.names_removeFile]
    split
    · rfl
    · exact h.unused sha256' n' hn'
  · intro k' hk'
    rw [hinode] at hk'
    cases hk'
  · intro j d k' hji hd hk'
    refine ⟨rfl, ?_, by rw [hinode]; exact nofun⟩
    intro sha256' hname
    rw [hartifact] at hname
    exact h.unlinked j d k' hd hk' sha256' hname

/-! ### What the directory holds -/

theorem Simulates.content_create {sha256 : Text} (h : Simulates H s order m)
    (hnew : s.directory.createNew (.temporary sha256 s.sequence) = some (dir, k)) (sha256' : Text) :
    dir.content (.artifact sha256') = m.artifacts sha256' := by
  obtain ⟨-, -, hfiles, hnames⟩ := Directory.createNew_eq_some hnew
  rw [← h.content, Directory.content, Directory.content, hnames, if_neg nofun, hfiles]
  cases hname : s.directory.names (.artifact sha256') with
  | none => rfl
  | some k' => exact List.getElem?_append_left (h.bounded _ _ hname)

/-- A file that is being written is not an artifact. -/
theorem Simulates.content_write {bytes : Bytes} (h : Simulates H s order m)
    (hcall : s.calls[i]? = some c) (hc : c.inode = some k) (sha256 : Text) :
    (s.directory.append k bytes).content (.artifact sha256) = m.artifacts sha256 := by
  rw [← h.content, Directory.content, Directory.content]
  change (s.directory.names (.artifact sha256)).bind _ = _
  cases hname : s.directory.names (.artifact sha256) with
  | none => rfl
  | some k' =>
    have hne : k ≠ k' := by
      rintro rfl
      exact h.unlinked i c k hcall hc sha256 hname
    rw [Option.bind_some, Option.bind_some, Directory.files_append, if_neg hne]

theorem Simulates.content_link {proof : Bytes} (h : Simulates H s order m)
    (hlink : s.directory.hardLink k (.artifact (H proof).val) = some dir)
    (hwritten : s.directory.files[k]? = some proof) (hsize : SizeOk proof.length)
    (sha256 : Text) : dir.content (.artifact sha256) = (m.insert proof hsize).artifacts sha256 := by
  obtain ⟨-, hfiles, hnames⟩ := Directory.hardLink_eq_some hlink
  rw [Directory.content, hnames, hfiles, MemoryProofArtifactStore.insert_artifacts]
  by_cases heq : sha256 = (H proof).val
  · rw [if_pos (by rw [heq]), if_pos heq]
    exact hwritten
  · rw [if_neg (by simpa using heq), if_neg heq]
    exact h.content sha256

theorem Simulates.stored_of_named {sha256 : Text} (h : Simulates H s order m)
    (hname : s.directory.names (.artifact sha256) ≠ none) :
    ∃ existing, m.artifacts sha256 = some existing := by
  obtain ⟨k, hk⟩ := Option.ne_none_iff_exists'.mp hname
  refine ⟨s.directory.files.get ⟨k, h.bounded _ k hk⟩, ?_⟩
  rw [← h.content, Directory.content, hk]
  exact List.getElem?_eq_getElem _

/-! ### One step -/

theorem Simulates.run_metadata (h : Simulates H s order m) (sha256 : Text) :
    Lookup.metadata.run H s.directory sha256 =
      match m.artifacts sha256 with
      | none => .inr (.ok none)
      | some _ => .inl .reading := by
  rw [Lookup.run, h.content]
  cases hm : m.artifacts sha256 with
  | none => rfl
  | some bytes =>
    have hsize := (m.addressed sha256 bytes hm).2
    simp [hsize]

theorem Simulates.run_reading {sha256 : Text} {bytes : Bytes} (h : Simulates H s order m)
    (hm : m.artifacts sha256 = some bytes) :
    Lookup.reading.run H s.directory sha256 = .inr (.ok (some bytes)) := by
  obtain ⟨hdigest, hsize⟩ := m.addressed sha256 bytes hm
  rw [Lookup.run, h.content, hm]
  simp [validateProofSize, rejectIf, hsize, hdigest, bind, Except.bind, pure, Except.pure]

/-- The store in memory does nothing, or performs the call that moves. -/
def Matched (H : Bytes → Digest) (s' : FileProofArtifactStore)
    (order : List (ℕ × StoreOp × StoreAnswer)) (m : MemoryProofArtifactStore H) (i : ℕ)
    (op : StoreOp) : Prop :=
  Simulates H s' order m ∨
    Simulates H s' (order ++ [(i, op, (m.perform op).1)]) (m.perform op).2

theorem matched_get {sha256 : Text} {phase phase' : GetPhase} (h : Simulates H s order m)
    (hcall : s.calls[i]? = some (.get sha256 phase))
    (hrun : phase.run H s.directory sha256 = some phase') :
    Matched H (s.setCall i (.get sha256 phase') s.directory s.sequence) order m i
      (.get sha256) := by
  have hframe : Frame s i (.get sha256 phase') s.directory s.sequence := .silent h hcall nofun
  have hok := (h.call i _ hcall).2.1
  cases phase with
  | started =>
    simp only [GetPhase.run, Option.some.injEq] at hrun
    by_cases hhex : isLowerHex sha256 64 = true
    · rw [if_pos hhex] at hrun
      cases hrun
      exact Or.inl (h.stay hcall hframe rfl h.content hhex rfl)
    · rw [if_neg hhex] at hrun
      cases hrun
      refine Or.inr (h.commit hcall hframe rfl h.content trivial rfl ?_)
      simp [StoreCall.settled, GetPhase.settled, StoreCall.op, MemoryProofArtifactStore.perform,
        MemoryProofArtifactStore.get, hhex]
  | returned result => cases hrun
  | looking l =>
    cases l with
    | metadata =>
      have hhex : isLowerHex sha256 64 = true := hok
      rw [GetPhase.run, h.run_metadata] at hrun
      cases hm : m.artifacts sha256 with
      | none =>
        rw [hm] at hrun
        cases hrun
        refine Or.inr (h.commit hcall hframe rfl h.content trivial rfl ?_)
        simp [StoreCall.settled, GetPhase.settled, StoreCall.op, MemoryProofArtifactStore.perform,
          MemoryProofArtifactStore.get, hhex, hm]
      | some bytes =>
        rw [hm] at hrun
        cases hrun
        exact Or.inr (h.commit hcall hframe rfl h.content ⟨hhex, bytes, hm⟩ rfl rfl)
    | reading =>
      obtain ⟨hhex, bytes, hm⟩ := hok
      rw [GetPhase.run, h.run_reading hm] at hrun
      cases hrun
      refine Or.inl (h.stay hcall hframe rfl h.content trivial ?_)
      simp [StoreCall.settled, GetPhase.settled, MemoryProofArtifactStore.get, hhex, hm]

/-- A put that finds its digest taken takes effect, and compares the two artifacts next. -/
theorem Simulates.taken {proof existing : Bytes} {phase phase' : PutPhase} (h : Simulates H s order m)
    (hcall : s.calls[i]? = some (.put proof phase))
    (hframe : Frame s i (.put proof phase') s.directory s.sequence) (hsize : SizeOk proof.length)
    (hm : m.artifacts (H proof).val = some existing)
    (hnone : StoreCall.settled m (.put proof phase) = none)
    (hphase : phase' = .checking .reading ∨ ∃ temporary, phase' = .rechecking temporary .metadata) :
    Matched H (s.setCall i (.put proof phase') s.directory s.sequence) order m i (.put proof) := by
  have hput := MemoryProofArtifactStore.put_of_some hsize hm
  have hsame : (m.put proof).2 = m := by rw [hput]
  refine Or.inr (h.commit hcall hframe rfl (fun sha256 => ?_) ?_ hnone ?_)
  · rw [h.content, StoreCall.op, MemoryProofArtifactStore.perform, hput]
  · rw [StoreCall.op, MemoryProofArtifactStore.perform, hsame]
    rcases hphase with rfl | ⟨_, rfl⟩
    · exact ⟨hsize, existing, hm⟩
    · exact ⟨hsize, existing, hm⟩
  · rcases hphase with rfl | ⟨_, rfl⟩
    · simp only [StoreCall.settled, PutPhase.settled, StoreCall.op,
        MemoryProofArtifactStore.perform, hput, Option.map_some]
    · simp only [StoreCall.settled, PutPhase.settled, StoreCall.op,
        MemoryProofArtifactStore.perform, hput, Option.map_some]

theorem matched_put {proof : Bytes} {n : ℕ} {phase phase' : PutPhase} (h : Simulates H s order m)
    (hcall : s.calls[i]? = some (.put proof phase))
    (hrun : phase.run H proof n s.directory s.sequence = some (dir, sequence, phase')) :
    Matched H (s.setCall i (.put proof phase') dir sequence) order m i (.put proof) := by
  have hok := (h.call i _ hcall).2.1
  have hsilent : ∀ {p : PutPhase}, StoreCall.inode (.put proof p) = none →
      Frame s i (.put proof p) s.directory s.sequence := by
    intro p hnone
    refine .silent h hcall fun k hk => ?_
    rw [hnone] at hk
    cases hk
  cases phase with
  | started =>
    rw [PutPhase.run] at hrun
    split at hrun
    · rename_i e herror
      obtain ⟨hsize, rfl⟩ := validateProofSize_eq_error.mp herror
      cases hrun
      have hput := MemoryProofArtifactStore.put_of_not_sizeOk (m := m) hsize
      refine Or.inr (h.commit hcall (hsilent rfl) rfl ?_ trivial rfl ?_)
      · intro sha256
        rw [h.content, StoreCall.op, MemoryProofArtifactStore.perform, hput]
      · simp [StoreCall.settled, PutPhase.settled, StoreCall.op, MemoryProofArtifactStore.perform,
          hput]
    · rename_i hsize
      cases hrun
      exact Or.inl (h.stay hcall (hsilent rfl) rfl h.content
        (validateProofSize_eq_ok.mp hsize) rfl)
  | returned result => cases hrun
  | checking l =>
    cases l with
    | metadata =>
      have hsize : SizeOk proof.length := hok
      rw [PutPhase.run, h.run_metadata] at hrun
      cases hm : m.artifacts (H proof).val with
      | none =>
        rw [hm] at hrun
        cases hrun
        exact Or.inl (h.stay hcall (hsilent rfl) rfl h.content hsize rfl)
      | some existing =>
        rw [hm] at hrun
        cases hrun
        exact h.taken hcall (hsilent rfl) hsize hm rfl (Or.inl rfl)
    | reading =>
      obtain ⟨hsize, existing, hm⟩ := hok
      rw [PutPhase.run, h.run_reading hm] at hrun
      cases hrun
      refine Or.inl (h.stay hcall (hsilent rfl) rfl h.content trivial ?_)
      simp only [StoreCall.settled, PutPhase.settled, Option.map_some,
        MemoryProofArtifactStore.put_of_some hsize hm]
  | creating =>
    have hsize : SizeOk proof.length := hok
    rw [PutPhase.run] at hrun
    split at hrun
    · rename_i hclash
      rw [Directory.createNew, h.unused _ _ (Nat.le_refl _)] at hclash
      cases hclash
    · rename_i dir' inode hnew
      cases hrun
      refine Or.inl (h.stay hcall (.create h hnew rfl) rfl (h.content_create hnew) ?_ rfl)
      obtain ⟨-, rfl, hfiles, -⟩ := Directory.createNew_eq_some hnew
      exact ⟨hsize, [], by simp [hfiles], rfl⟩
  | writing temporary inode rest =>
    obtain ⟨hsize, written, hwritten, hrest⟩ := hok
    cases rest with
    | nil =>
      cases hrun
      rw [List.append_nil] at hrest
      refine Or.inl (h.stay hcall (.silent h hcall fun _ hk => hk) rfl h.content ⟨hsize, ?_⟩ rfl)
      rw [hwritten, hrest]
    | cons byte rest =>
      cases hrun
      refine Or.inl (h.stay hcall (.write h hcall rfl rfl) rfl (h.content_write hcall rfl) ?_ rfl)
      refine ⟨hsize, written ++ (byte :: rest).take n, ?_, ?_⟩
      · rw [Directory.files_append, if_pos rfl, hwritten]
        rfl
      · rw [List.append_assoc, List.take_append_drop, hrest]
  | linking temporary inode =>
    obtain ⟨hsize, hwritten⟩ := hok
    rw [PutPhase.run] at hrun
    split at hrun
    · rename_i dir' hlink
      cases hrun
      have hm : m.artifacts (H proof).val = none := by
        rw [← h.content, Directory.content, (Directory.hardLink_eq_some hlink).1]
        rfl
      have hput := MemoryProofArtifactStore.put_of_none hsize hm
      refine Or.inr (h.commit hcall (.link h hcall rfl hlink rfl) rfl ?_ trivial rfl ?_)
      · intro sha256
        rw [StoreCall.op, MemoryProofArtifactStore.perform, hput]
        exact h.content_link hlink hwritten hsize sha256
      · simp only [StoreCall.settled, PutPhase.settled, StoreCall.op,
          MemoryProofArtifactStore.perform, hput, Option.map_some]
    · rename_i hlink
      cases hrun
      obtain ⟨existing, hm⟩ := h.stored_of_named (Directory.hardLink_eq_none hlink)
      exact h.taken hcall (hsilent rfl) hsize hm rfl (Or.inr ⟨_, rfl⟩)
  | rechecking temporary l =>
    obtain ⟨hsize, existing, hm⟩ := hok
    cases l with
    | metadata =>
      rw [PutPhase.run, h.run_metadata, hm] at hrun
      cases hrun
      exact Or.inl (h.stay hcall (hsilent rfl) rfl h.content ⟨hsize, existing, hm⟩ rfl)
    | reading =>
      rw [PutPhase.run, h.run_reading hm] at hrun
      cases hrun
      refine Or.inl (h.stay hcall (hsilent rfl) rfl h.content trivial ?_)
      simp only [StoreCall.settled, PutPhase.settled, Option.map_some,
        MemoryProofArtifactStore.put_of_some hsize hm]
  | unlinking temporary result =>
    cases hrun
    exact Or.inl (h.stay hcall (.unlink h rfl) rfl h.content trivial rfl)

theorem simulates_invoke (h : Simulates H s order m) (op : StoreOp) :
    Simulates H { s with
      calls := s.calls ++ [.start op]
      log := s.log ++ [.invoke s.calls.length op] } order m := by
  have hnew : ∀ op, .invoke s.calls.length op ∉ s.log := by
    intro op hmem
    obtain ⟨d, hd, -⟩ := h.made _ op hmem
    rw [List.getElem?_eq_none (Nat.le_refl _)] at hd
    cases hd
  have hop : (StoreCall.start op).op = op := by cases op <;> rfl
  have hget : ∀ (j : ℕ) d, (s.calls ++ [.start op])[j]? = some d →
      s.calls[j]? = some d ∨ j = s.calls.length ∧ d = .start op := by
    intro j d hd
    rw [List.getElem?_append] at hd
    split at hd
    · exact Or.inl hd
    · obtain ⟨hj, rfl⟩ := List.getElem?_eq_some_iff.mp hd
      rw [List.length_singleton] at hj
      exact Or.inr ⟨by omega, by simp⟩
  have hstart : ∀ k, (StoreCall.start op).inode ≠ some k := by
    cases op <;> exact nofun
  have hinode : ∀ (j : ℕ) d k, (s.calls ++ [.start op])[j]? = some d → d.inode = some k →
      s.calls[j]? = some d := by
    intro j d k hd hk
    rcases hget j d hd with hd | ⟨-, rfl⟩
    · exact hd
    · exact absurd hk (hstart k)
  refine ⟨h.linearized.invoke hnew, h.content, ?_, ?_, h.bounded, h.unused, ?_, ?_⟩
  · intro j op' hj
    rcases List.mem_append.mp hj with hj | hj
    · obtain ⟨d, hd, hdop⟩ := h.made j op' hj
      exact ⟨d, by rw [List.getElem?_append_left (List.getElem?_eq_some_iff.mp hd).1, hd], hdop⟩
    · cases List.mem_singleton.mp hj
      exact ⟨.start op, List.getElem?_concat_length, hop⟩
  · intro j d hd
    rcases hget j d hd with hd | ⟨rfl, rfl⟩
    · obtain ⟨hinvoked, hok, hsettles⟩ := h.call j d hd
      exact ⟨List.mem_append_left _ hinvoked, hok, hsettles⟩
    · have hfresh : s.calls.length ∉ order.map Prod.fst := by
        intro hmem
        obtain ⟨x, hx, hxj⟩ := List.mem_map.mp hmem
        exact hnew _ (hxj ▸ h.linearized.invoked x hx)
      refine ⟨?_, ?_, ?_⟩
      · rw [hop]
        exact List.mem_append_right _ (List.mem_singleton_self _)
      · cases op <;> trivial
      · cases op <;> exact hfresh
  · intro j d k hd hk
    exact h.unlinked j d k (hinode j d k hd hk) hk
  · intro j j' d d' k hd hd' hk hk'
    exact h.alone j j' d d' k (hinode j d k hd hk) (hinode j' d' k hd' hk') hk hk'

/-- The store in memory follows each step, with a longer order. -/
theorem simulates_step {l : Label} (h : Simulates H s order m) (hs : step H s l = some s') :
    Simulates H s' order m ∨ ∃ i n op, l = .run i n ∧
      Simulates H s' (order ++ [(i, op, (m.perform op).1)]) (m.perform op).2 := by
  cases l with
  | invoke op =>
    cases hs
    exact Or.inl (simulates_invoke h op)
  | run i n =>
    rw [step] at hs
    split at hs
    · rename_i sha256 phase hcall
      obtain ⟨phase', hrun, rfl⟩ := Option.map_eq_some_iff.mp hs
      exact (matched_get h hcall hrun).imp_right fun hm => ⟨i, n, _, rfl, hm⟩
    · rename_i proof phase hcall
      obtain ⟨⟨dir, sequence, phase'⟩, hrun, rfl⟩ := Option.map_eq_some_iff.mp hs
      exact (matched_put h hcall hrun).imp_right fun hm => ⟨i, n, _, rfl, hm⟩
    · cases hs

/-! ### Runs -/

theorem simulates_new : Simulates H new [] .empty where
  linearized := .start
  content _ := rfl
  made _ _ h := nomatch h
  call _ _ h := by cases h
  bounded _ _ h := nomatch h
  unused _ _ _ := rfl
  unlinked _ _ _ h := by cases h
  alone _ _ _ _ _ h := by cases h

/-- The order only grows along a run, and nothing that is stored changes. -/
theorem simulates_exec : ∀ {ls : List Label} {s order m}, Simulates H s order m →
    exec (step H) s ls = some s' →
      ∃ order' m', Simulates H s' order' m' ∧ order <+: order' ∧ m.Extends m'
  | [], s, order, m, h, hs => by
    cases hs
    exact ⟨order, m, h, List.prefix_refl _, .refl m⟩
  | l :: ls, s, order, m, h, hs => by
    obtain ⟨s₁, hs₁, hs⟩ := Option.bind_eq_some_iff.mp hs
    rcases simulates_step h hs₁ with h₁ | ⟨i, n, op, -, h₁⟩
    · exact simulates_exec h₁ hs
    · obtain ⟨order', m', h', hprefix, hext⟩ := simulates_exec h₁ hs
      refine ⟨order', m', h', (List.prefix_append _ _).trans hprefix, fun sha256 bytes hbytes => ?_⟩
      exact hext _ _ (MemoryProofArtifactStore.extends_perform m op _ _ hbytes)

/-! ### What callers can rely on -/

/-- What the store in memory holds was put. -/
theorem performs_stored : ∀ {order : List (ℕ × StoreOp × StoreAnswer)}
    {m₀ m : MemoryProofArtifactStore H}, Performs MemoryProofArtifactStore.perform m₀ order m →
      ∀ {sha256 : Text} {bytes : Bytes}, m.artifacts sha256 = some bytes →
        m₀.artifacts sha256 = some bytes ∨ ∃ c ∈ order, c.2.1 = StoreOp.put bytes
  | [], m₀, m, h, sha256, bytes, hbytes => by
    cases h
    exact Or.inl hbytes
  | (i, op, res) :: order, m₀, m, ⟨hres, hrest⟩, sha256, bytes, hbytes => by
    rcases performs_stored hrest hbytes with hbytes | ⟨c, hc, hop⟩
    · rcases MemoryProofArtifactStore.artifacts_perform hbytes with hbytes | hop
      · exact Or.inl hbytes
      · exact Or.inr ⟨_, List.mem_cons_self, hop⟩
    · exact Or.inr ⟨c, List.mem_cons_of_mem _ hc, hop⟩

/-- A response is in the order, under the operation that was invoked. -/
theorem Simulates.answered {op : StoreOp} {answer : StoreAnswer} (h : Simulates H s order m)
    (hinvoke : .invoke i op ∈ s.log) (hrespond : .respond i answer ∈ s.log) :
    (i, op, answer) ∈ order := by
  obtain ⟨op', hmem⟩ := h.linearized.responded i answer hrespond
  obtain ⟨c, hc, rfl⟩ := h.made i op hinvoke
  obtain ⟨c', hc', hop⟩ := h.made i op' (h.linearized.invoked _ hmem)
  cases hc.symm.trans hc'
  rw [hop]
  exact hmem

/-- A read returns bytes that were put and hash to their digest. -/
theorem Simulates.got {sha256 : Text} {bytes : Bytes} (h : Simulates H s order m)
    (hmem : (i, .get sha256, .get (.ok (some bytes))) ∈ order) :
    (H bytes).val = sha256 ∧ ∃ j, .invoke j (.put bytes) ∈ s.log := by
  obtain ⟨before, after, m₁, rfl, hbefore, hget, -⟩ := h.linearized.performs.of_mem hmem
  have hm₁ : m₁.artifacts sha256 = some bytes := by
    simp only [MemoryProofArtifactStore.perform, MemoryProofArtifactStore.get,
      StoreAnswer.get.injEq] at hget
    split at hget
    · simpa using hget
    · cases hget
  refine ⟨(m₁.addressed _ _ hm₁).1, ?_⟩
  rcases performs_stored hbefore hm₁ with hnone | ⟨⟨j, op, answer⟩, hc, rfl⟩
  · cases hnone
  · exact ⟨j, h.linearized.invoked _ (List.mem_append_left _ hc)⟩

/-- What was put is there for every read after it. -/
theorem Simulates.kept {proof : Bytes} {stored : StoredArtifact} {answer : StoreAnswer}
    (h : Simulates H s order m)
    (hpair : [(i, .put proof, .put (.ok stored)), (j, .get stored.sha256, answer)].Sublist order) :
    answer = .get (.ok (some proof)) := by
  obtain ⟨m₁, ⟨rfl, hm₁⟩, hget⟩ := h.linearized.performs.of_pair
    (I := fun m => stored = storedArtifact H proof ∧ m.artifacts (H proof).val = some proof) hpair
    (fun m₁ hput => MemoryProofArtifactStore.put_ok (StoreAnswer.put.inj hput))
    (fun m₁ op hm₁ => ⟨hm₁.1, MemoryProofArtifactStore.extends_perform m₁ op _ _ hm₁.2⟩)
  have hget : (m₁.perform (.get (H proof).val)).1 = answer := hget
  rw [← hget, MemoryProofArtifactStore.perform,
    MemoryProofArtifactStore.get_of_lowerHex (H proof).property, hm₁]

/-- The calls of a run answer as the store in memory does in some order; what is read was put and
    hashes to its digest; what was put is read ever after; and a put that fails stores nothing. -/
theorem directory_refines_memory (H : Bytes → Digest) (ls : List Label) (s : FileProofArtifactStore)
    (h : exec (step H) new ls = some s) :
    Linearizable (MemoryProofArtifactStore.perform (H := H)) .empty s.log ∧
      (∀ i sha256 bytes, .invoke i (.get sha256) ∈ s.log →
        .respond i (.get (.ok (some bytes))) ∈ s.log →
          (H bytes).val = sha256 ∧ ∃ j, .invoke j (.put bytes) ∈ s.log) ∧
      (∀ i j proof stored answer, .invoke i (.put proof) ∈ s.log →
        [.respond i (.put (.ok stored)), .invoke j (.get stored.sha256)].Sublist s.log →
          .respond j answer ∈ s.log → answer = .get (.ok (some proof))) ∧
      ∀ m i n m' e, Takes (step H) new ls m (.run i n) m' → .respond i (.put (.error e)) ∈ s.log →
        ∀ sha256, m'.directory.content (.artifact sha256) =
          m.directory.content (.artifact sha256) := by
  obtain ⟨order, m, hsim, -⟩ := simulates_exec (simulates_new (H := H)) h
  refine ⟨hsim.linearized.linearizable, ?_, ?_, ?_⟩
  · intro i sha256 bytes hinvoke hrespond
    exact hsim.got (hsim.answered hinvoke hrespond)
  · intro i j proof stored answer hinvoke hpair hrespond
    have hput := hsim.answered hinvoke (mem_of_pair hpair).1
    have hget := hsim.answered (mem_of_pair hpair).2 hrespond
    obtain ⟨op, hordered⟩ := hsim.linearized.ordered i _ (j, .get stored.sha256, answer) hpair hget
    obtain ⟨rfl, -⟩ := hsim.linearized.unique (mem_of_pair hordered).1 hput
    exact hsim.kept hordered
  · rintro s₁ i n s₂ e ⟨pre, ⟨post, hpost⟩, hpre, hstep⟩ hrespond sha256
    obtain ⟨order₁, m₁, hsim₁, -⟩ := simulates_exec (simulates_new (H := H)) hpre
    rw [← hpost, exec_append, exec_concat.mpr ⟨s₁, hpre, hstep⟩, Option.bind_some] at h
    rcases simulates_step hsim₁ hstep with hsim₂ | ⟨i', n', op, heq, hsim₂⟩
    · rw [hsim₂.content, hsim₁.content]
    · -- the call takes effect in this step, with the answer that it will give
      cases heq
      obtain ⟨order', m', hsim', hprefix, -⟩ := simulates_exec hsim₂ h
      obtain ⟨op', hmem'⟩ := hsim'.linearized.responded i _ hrespond
      have hmem := hprefix.subset (List.mem_append_right order₁ (List.mem_singleton_self _))
      obtain ⟨-, hanswer⟩ := hsim'.linearized.unique hmem hmem'
      rw [hsim₂.content, hsim₁.content]
      cases op with
      | get sha256' => rfl
      | put proof =>
        have hput : (m₁.put proof).1 = .error e := StoreAnswer.put.inj hanswer
        rw [MemoryProofArtifactStore.perform, MemoryProofArtifactStore.put_error hput]

/-! ### Two writers of one digest -/

/-- A hash of which every pair of inputs is a collision. -/
def constantHash : Bytes → Digest := fun _ => ⟨List.replicate 64 '0', by decide⟩

/-- Two puts race for a digest, the first links its file, and a reader looks in between. -/
def racingLabels : List Label :=
  [.invoke (.put [1]), .invoke (.put [2, 3]), .run 0 0, .run 1 0, .run 0 0, .run 1 0, .run 0 0,
    .run 1 0, .run 0 1, .run 1 1, .run 1 1, .run 0 0, .run 1 0, .run 0 0,
    .invoke (.get (constantHash []).val), .run 2 0, .run 1 0, .run 2 0, .run 1 0, .run 0 0,
    .run 2 0, .run 1 0, .run 1 0]

theorem racing_puts_linearizable : ∃ s, exec (step constantHash) new racingLabels = some s ∧
    s.log.length = 6 ∧ Linearizable (MemoryProofArtifactStore.perform (H := constantHash)) .empty s.log :=
  ⟨_, rfl, rfl, (directory_refines_memory constantHash racingLabels _ rfl).1⟩

end SoulSociety.Provider.FileProofArtifactStore
