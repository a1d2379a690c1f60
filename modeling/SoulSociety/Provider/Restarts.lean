import SoulSociety.Provider.ArtifactRuns

/-! The store in a directory when its process may stop at any moment and start again, and any file
    operation may fail. The calls under way never return, their temporary files stay, and the new
    process may have the id of an earlier one, and with it the names of these files. What was on the
    disk stays there: the loss of unsynced data with the machine is left out. -/

namespace SoulSociety.Provider
open Lib SoulSociety.Core

namespace FileProofArtifactStore

/-- The next file operation of a read fails. -/
def GetPhase.fail : GetPhase → Option GetPhase
  | .looking _ => some (.returned (.error .io))
  | .started | .returned _ => none

/-- The next file operation of a put fails. That the temporary file cannot be removed is ignored. -/
def PutPhase.fail (sequence : ℕ) : PutPhase → Option (ℕ × PutPhase)
  | .checking _ => some (sequence, .returned (.error .io))
  | .creating => some (sequence + 1, .unlinking sequence (.error .io))
  | .writing temporary _ _ | .linking temporary _ | .rechecking temporary _ =>
    some (sequence, .unlinking temporary (.error .io))
  | .unlinking _ result => some (sequence, .returned result)
  | .started | .returned _ => none

end FileProofArtifactStore

open FileProofArtifactStore in
/-- The store, and the number of calls that earlier processes took. -/
structure RestartedStore where
  store : FileProofArtifactStore
  earlier : ℕ

namespace RestartedStore
open FileProofArtifactStore

def new : RestartedStore := ⟨.new, 0⟩

/-- Whether the new process has the id of an earlier one is up to the environment. -/
inductive Label where
  | invoke (op : StoreOp)
  | run (call n : ℕ)
  | fail (call : ℕ)
  | restart (reused : Bool)

def step (H : Bytes → Digest) (t : RestartedStore) : Label → Option RestartedStore
  | .invoke op => (t.store.step H (.invoke op)).map fun s => { t with store := s }
  | .run i n =>
    if t.earlier ≤ i then (t.store.step H (.run i n)).map fun s => { t with store := s } else none
  | .fail i =>
    if t.earlier ≤ i then
      match t.store.calls[i]? with
      | some (.get sha256 phase) => phase.fail.map fun phase =>
        { t with store := t.store.setCall i (.get sha256 phase) t.store.directory t.store.sequence }
      | some (.put proof phase) => (phase.fail t.store.sequence).map fun r =>
        { t with store := t.store.setCall i (.put proof r.2) t.store.directory r.1 }
      | none => none
    else none
  | .restart reused => some {
      store := { t.store with sequence := if reused then 0 else t.store.sequence }
      earlier := t.store.calls.length }

/-- The answer is not that an operation failed. -/
def answered : Lib.Point StoreOp StoreAnswer → Bool
  | .respond _ (.put (.error .io)) | .respond _ (.get (.error .io)) => false
  | _ => true

end RestartedStore

/-! ### Names of temporary files -/

namespace FileProofArtifactStore

/-- The phase with another name for its temporary file. -/
def PutPhase.rename (k : ℕ) : PutPhase → PutPhase
  | .writing _ inode rest => .writing k inode rest
  | .linking _ inode => .linking k inode
  | .rechecking _ l => .rechecking k l
  | .unlinking _ result => .unlinking k result
  | p => p

def StoreCall.rename (k : ℕ) : StoreCall → StoreCall
  | .get sha256 phase => .get sha256 phase
  | .put proof phase => .put proof (phase.rename k)

/-- An operation of the call has failed. -/
def StoreCall.failed : StoreCall → Bool
  | .get _ (.returned (.error .io)) | .put _ (.unlinking _ (.error .io))
  | .put _ (.returned (.error .io)) => true
  | _ => false

theorem StoreCall.response_rename (k : ℕ) (c : StoreCall) : (c.rename k).response = c.response := by
  cases c with
  | get sha256 phase => rfl
  | put proof phase => cases phase <;> rfl

/-- The same files, and the same artifacts. -/
structure Agrees (dir dir' : Directory) : Prop where
  files : dir.files = dir'.files
  named : ∀ sha256, dir.names (.artifact sha256) = dir'.names (.artifact sha256)

variable {H : Bytes → Digest} {dir dir' dir₁ : Directory} {proof : Bytes} {n sequence sequence₁ : ℕ}

theorem Agrees.content (h : Agrees dir dir') (sha256 : Text) :
    dir.content (.artifact sha256) = dir'.content (.artifact sha256) := by
  rw [Directory.content, Directory.content, h.named, h.files]

theorem Agrees.lookup (h : Agrees dir dir') (sha256 : Text) (l : Lookup) :
    l.run H dir sha256 = l.run H dir' sha256 := by
  cases l <;> rw [Lookup.run, Lookup.run, h.content]

theorem Agrees.run (h : Agrees dir dir') (sha256 : Text) (phase : GetPhase) :
    phase.run H dir sha256 = phase.run H dir' sha256 := by
  cases phase with
  | looking l => rw [GetPhase.run, GetPhase.run, h.lookup]
  | _ => rfl

theorem Agrees.symm (h : Agrees dir dir') : Agrees dir' dir :=
  ⟨h.files.symm, fun sha256 => (h.named sha256).symm⟩

theorem Agrees.append (h : Agrees dir dir') (inode : ℕ) (bytes : Bytes) :
    Agrees (dir.append inode bytes) (dir'.append inode bytes) :=
  ⟨congrArg (List.modify · inode _) h.files, h.named⟩

theorem Agrees.removeFile (h : Agrees dir dir') (sha256 : Text) (k : ℕ) :
    Agrees (dir.removeFile (.temporary sha256 k)) dir' := by
  refine ⟨h.files, fun sha256' => ?_⟩
  rw [Directory.names_removeFile, if_neg nofun, h.named]

theorem Agrees.createNew {sha256 : Text} {k inode : ℕ} (h : Agrees dir dir')
    (hnew : dir.createNew (.temporary sha256 sequence) = some (dir₁, inode))
    (hunused : dir'.names (.temporary sha256 k) = none) : ∃ dir₂,
      dir'.createNew (.temporary sha256 k) = some (dir₂, inode) ∧ Agrees dir₁ dir₂ := by
  obtain ⟨-, rfl, hfiles, hnames⟩ := Directory.createNew_eq_some hnew
  rw [Directory.createNew, hunused, h.files]
  refine ⟨_, rfl, by rw [hfiles, h.files], fun sha256' => ?_⟩
  simp [hnames, h.named]

theorem Agrees.hardLink (h : Agrees dir dir') (inode : ℕ) (sha256 : Text) :
    (dir.hardLink inode (.artifact sha256) = none ∧
      dir'.hardLink inode (.artifact sha256) = none) ∨
    ∃ dir₁ dir₂, dir.hardLink inode (.artifact sha256) = some dir₁ ∧
      dir'.hardLink inode (.artifact sha256) = some dir₂ ∧ Agrees dir₁ dir₂ := by
  rw [Directory.hardLink, Directory.hardLink, h.named]
  cases dir'.names (.artifact sha256) with
  | some k => exact Or.inl ⟨rfl, rfl⟩
  | none => exact Or.inr ⟨_, _, rfl, rfl, h.files, fun sha256' => by simp [h.named]⟩

/-- A step of a put that does not fail only asks for the artifacts and its own file. -/
theorem run_rename {p p₁ : PutPhase} {sequence' : ℕ} (k : ℕ) (h : Agrees dir dir')
    (hunused : dir'.names (.temporary (H proof).val sequence') = none)
    (hrun : p.run H proof n dir sequence = some (dir₁, sequence₁, p₁))
    (hok : (StoreCall.put proof p₁).failed = false) : ∃ dir₂ sequence₂ k',
      (p.rename k).run H proof n dir' sequence' = some (dir₂, sequence₂, p₁.rename k') ∧
        Agrees dir₁ dir₂ := by
  cases p with
  | started =>
    rw [PutPhase.run] at hrun
    refine ⟨dir', sequence', k, ?_⟩
    change PutPhase.run H proof n dir' sequence' .started = _ ∧ _
    rw [PutPhase.run]
    split at hrun <;> cases hrun <;> exact ⟨rfl, h⟩
  | checking l =>
    rw [PutPhase.run, h.lookup] at hrun
    refine ⟨dir', sequence', k, ?_⟩
    change PutPhase.run H proof n dir' sequence' (.checking l) = _ ∧ _
    rw [PutPhase.run]
    split at hrun <;> cases hrun <;> exact ⟨rfl, h⟩
  | creating =>
    rw [PutPhase.run] at hrun
    split at hrun
    · cases hrun
      cases hok
    · rename_i dir₁ inode hnew
      cases hrun
      obtain ⟨dir₂, hnew', h₂⟩ := h.createNew hnew hunused
      refine ⟨dir₂, sequence' + 1, sequence', ?_, h₂⟩
      change PutPhase.run H proof n dir' sequence' .creating = _
      rw [PutPhase.run, hnew']
      rfl
  | writing temporary inode rest =>
    cases rest with
    | nil =>
      cases hrun
      exact ⟨dir', sequence', k, rfl, h⟩
    | cons byte rest =>
      cases hrun
      exact ⟨_, sequence', k, rfl, h.append inode _⟩
  | linking temporary inode =>
    rw [PutPhase.run] at hrun
    change ∃ dir₂ sequence₂ k',
      PutPhase.run H proof n dir' sequence' (.linking k inode) = some (dir₂, sequence₂, _) ∧ _
    rw [PutPhase.run]
    rcases h.hardLink inode (H proof).val with ⟨hd, hd'⟩ | ⟨dir₁, dir₂, hd, hd', h₂⟩
    · rw [hd] at hrun
      cases hrun
      exact ⟨dir', sequence', k, by rw [hd']; rfl, h⟩
    · rw [hd] at hrun
      cases hrun
      exact ⟨dir₂, sequence', k, by rw [hd']; rfl, h₂⟩
  | rechecking temporary l =>
    rw [PutPhase.run, h.lookup] at hrun
    refine ⟨dir', sequence', k, ?_⟩
    change PutPhase.run H proof n dir' sequence' (.rechecking k l) = _ ∧ _
    rw [PutPhase.run]
    split at hrun <;> cases hrun <;> exact ⟨rfl, h⟩
  | unlinking temporary result =>
    cases hrun
    exact ⟨_, sequence', k, rfl, ((h.removeFile _ _).symm.removeFile _ _).symm⟩
  | returned result => cases hrun

/-- A step after which the call has failed leaves the artifacts as they are. -/
theorem run_failed {p p₁ : PutPhase} (h : Agrees dir dir')
    (hrun : p.run H proof n dir sequence = some (dir₁, sequence₁, p₁))
    (hfailed : (StoreCall.put proof p₁).failed = true) : Agrees dir₁ dir' := by
  cases p with
  | started =>
    rw [PutPhase.run] at hrun
    split at hrun <;> cases hrun <;> exact h
  | checking l =>
    rw [PutPhase.run] at hrun
    split at hrun <;> cases hrun <;> exact h
  | creating =>
    rw [PutPhase.run] at hrun
    split at hrun <;> cases hrun
    · exact h
    · cases hfailed
  | writing temporary inode rest => cases rest <;> cases hrun <;> cases hfailed
  | linking temporary inode =>
    rw [PutPhase.run] at hrun
    split at hrun <;> cases hrun <;> cases hfailed
  | rechecking temporary l =>
    rw [PutPhase.run] at hrun
    split at hrun <;> cases hrun <;> exact h
  | unlinking temporary result =>
    cases hrun
    exact h.removeFile _ _
  | returned result => cases hrun

/-- A call that has failed stays so. -/
theorem failed_run {p p₁ : PutPhase} (hfailed : (StoreCall.put proof p).failed = true)
    (hrun : p.run H proof n dir sequence = some (dir₁, sequence₁, p₁)) :
    (StoreCall.put proof p₁).failed = true := by
  cases p with
  | unlinking temporary result =>
    cases hrun
    unfold StoreCall.failed at hfailed ⊢
    split at hfailed <;> simp_all
  | returned result => cases hrun
  | _ => cases hfailed

end FileProofArtifactStore

namespace RestartedStore
open FileProofArtifactStore

variable {H : Bytes → Digest} {t t' : RestartedStore} {s s' : FileProofArtifactStore} {i : ℕ}
  {c : StoreCall} {dir dir' : Directory}

theorem filter_answered (i : ℕ) (c : StoreCall) :
    (c.response.map (.respond i)).toList.filter answered =
      if c.failed then [] else (c.response.map (.respond i)).toList := by
  cases c with
  | get sha256 phase =>
    cases phase with
    | returned result =>
      cases result with
      | ok found => rfl
      | error e => cases e <;> rfl
    | _ => rfl
  | put proof phase =>
    cases phase with
    | returned result =>
      cases result with
      | ok stored => rfl
      | error e => cases e <;> rfl
    | unlinking temporary result =>
      cases result with
      | ok stored => rfl
      | error e => cases e <;> rfl
    | _ => rfl

/-- A run in one process, in which the calls of `t` that failed or lost their process wait. -/
structure Follows (t : RestartedStore) (s : FileProofArtifactStore) : Prop where
  agrees : Agrees t.store.directory s.directory
  length : t.store.calls.length = s.calls.length
  log : t.store.log.filter answered = s.log
  call : ∀ i c, t.earlier ≤ i → t.store.calls[i]? = some c → c.failed = false →
    ∃ k, s.calls[i]? = some (c.rename k)

/-- A call that has failed is one that waits. -/
theorem Follows.wait {sequence : ℕ} (h : Follows t s) (hagrees : Agrees dir s.directory)
    (hfailed : c.failed = true) :
    Follows { t with store := t.store.setCall i c dir sequence } s where
  agrees := hagrees
  length := by rw [setCall, List.length_set, h.length]
  log := by simp [setCall, List.filter_append, filter_answered, hfailed, h.log]
  call j d hj hd hok := by
    rw [setCall, List.getElem?_set] at hd
    split at hd
    · split at hd
      · cases hd
        rw [hfailed] at hok
        cases hok
      · cases hd
    · exact h.call j d hj hd hok

/-- A call that has not failed moves on in both. -/
theorem Follows.move {sequence : ℕ} (k sequence' : ℕ) (h : Follows t s)
    (hagrees : Agrees dir dir') (hcall : i < t.store.calls.length) (hok : c.failed = false) :
    Follows { t with store := t.store.setCall i c dir sequence }
      (s.setCall i (c.rename k) dir' sequence') where
  agrees := hagrees
  length := by rw [setCall, setCall, List.length_set, List.length_set, h.length]
  log := by
    simp [setCall, List.filter_append, filter_answered, hok, h.log, StoreCall.response_rename]
  call j d hj hd hd' := by
    rw [setCall, List.getElem?_set] at hd
    rw [setCall, List.getElem?_set]
    split at hd
    · rename_i hij
      cases hd
      rw [if_pos hij, if_pos (h.length ▸ hcall)]
      exact ⟨k, rfl⟩
    · rename_i hij
      rw [if_neg hij]
      exact h.call j d hj hd hd'

theorem follows_run {n : ℕ} (h : Follows t s) (hs : t.store.step H (.run i n) = some s')
    (hi : t.earlier ≤ i) (hunused : ∀ sha256, s.directory.names (.temporary sha256 s.sequence) = none) :
    Follows { t with store := s' } s ∨
      ∃ l s₁, s.step H l = some s₁ ∧ Follows { t with store := s' } s₁ := by
  rw [FileProofArtifactStore.step] at hs
  split at hs
  · rename_i sha256 phase hcall
    obtain ⟨phase', hrun, rfl⟩ := Option.map_eq_some_iff.mp hs
    cases hok : (StoreCall.get sha256 phase').failed with
    | true => exact Or.inl (h.wait h.agrees hok)
    | false =>
      have hbefore : (StoreCall.get sha256 phase).failed = false := by
        cases phase with
        | returned result => cases hrun
        | _ => rfl
      obtain ⟨k, hk⟩ := h.call i _ hi hcall hbefore
      refine Or.inr ⟨.run i n, _, ?_,
        h.move k s.sequence h.agrees (List.getElem?_eq_some_iff.mp hcall).1 hok⟩
      rw [FileProofArtifactStore.step, hk]
      exact Option.map_eq_some_iff.mpr ⟨phase', (h.agrees.run _ _).symm.trans hrun, rfl⟩
  · rename_i proof phase hcall
    obtain ⟨⟨dir, sequence, phase'⟩, hrun, rfl⟩ := Option.map_eq_some_iff.mp hs
    cases hok : (StoreCall.put proof phase').failed with
    | true => exact Or.inl (h.wait (run_failed h.agrees hrun hok) hok)
    | false =>
      have hbefore : (StoreCall.put proof phase).failed = false := by
        by_contra hfailed
        rw [failed_run (Bool.of_not_eq_false hfailed) hrun] at hok
        cases hok
      obtain ⟨k, hk⟩ := h.call i _ hi hcall hbefore
      obtain ⟨dir', sequence', k', hrun', hagrees⟩ := run_rename k h.agrees (hunused _) hrun hok
      refine Or.inr ⟨.run i n, _, ?_,
        h.move k' sequence' hagrees (List.getElem?_eq_some_iff.mp hcall).1 hok⟩
      rw [FileProofArtifactStore.step, hk]
      exact Option.map_eq_some_iff.mpr ⟨_, hrun', rfl⟩
  · cases hs

theorem follows_fail (h : Follows t s) (hs : step H t (.fail i) = some t') :
    Follows t' s ∨ ∃ l s₁, s.step H l = some s₁ ∧ Follows t' s₁ := by
  rw [RestartedStore.step] at hs
  split at hs
  · rename_i hi
    split at hs
    · rename_i sha256 phase hcall
      obtain ⟨phase', hfail, rfl⟩ := Option.map_eq_some_iff.mp hs
      cases phase with
      | looking l =>
        cases hfail
        exact Or.inl (h.wait h.agrees rfl)
      | _ => cases hfail
    · rename_i proof phase hcall
      obtain ⟨⟨sequence, phase'⟩, hfail, rfl⟩ := Option.map_eq_some_iff.mp hs
      cases phase with
      | unlinking temporary result =>
        cases hfail
        cases hok : (StoreCall.put proof (.returned result)).failed with
        | true => exact Or.inl (h.wait h.agrees hok)
        | false =>
          -- the file stays, and nobody asks for it
          have hbefore : (StoreCall.put proof (.unlinking temporary result)).failed = false := by
            rcases result with e | stored
            · cases e <;> first | rfl | cases hok
            · rfl
          obtain ⟨k, hk⟩ := h.call i _ hi hcall hbefore
          have hagrees := (h.agrees.symm.removeFile (H proof).val k).symm
          refine Or.inr ⟨.run i 0, _, ?_,
            h.move k s.sequence hagrees (List.getElem?_eq_some_iff.mp hcall).1 hok⟩
          rw [FileProofArtifactStore.step, hk]
          rfl
      | started => cases hfail
      | returned result => cases hfail
      | _ =>
        cases hfail
        exact Or.inl (h.wait h.agrees rfl)
    · cases hs
  · cases hs

/-- Each step is one of the run in one process, or none. -/
theorem follows_step {l : Label} (h : Follows t s) (hs : step H t l = some t')
    (hunused : ∀ sha256, s.directory.names (.temporary sha256 s.sequence) = none) :
    Follows t' s ∨ ∃ l' s', FileProofArtifactStore.step H s l' = some s' ∧ Follows t' s' := by
  cases l with
  | invoke op =>
    cases hs
    refine Or.inr ⟨.invoke op, _, rfl, h.agrees, ?_, ?_, ?_⟩
    · rw [List.length_append, List.length_append, h.length]
    · rw [List.filter_append, h.log, h.length]
      rfl
    · intro i c hi hc hok
      rw [List.getElem?_append] at hc ⊢
      rw [← h.length]
      split at hc
      · rename_i hlt
        rw [if_pos hlt]
        exact h.call i c hi hc hok
      · rename_i hlt
        rw [if_neg hlt, hc]
        cases List.mem_singleton.mp (List.mem_of_getElem? hc)
        exact ⟨0, by cases op <;> rfl⟩
  | run i n =>
    rw [RestartedStore.step] at hs
    split at hs
    · rename_i hi
      obtain ⟨s₁, hs₁, rfl⟩ := Option.map_eq_some_iff.mp hs
      exact follows_run h hs₁ hi hunused
    · cases hs
  | fail i => exact follows_fail h hs
  | restart reused =>
    cases hs
    refine Or.inl ⟨h.agrees, h.length, h.log, fun i c hi hc => ?_⟩
    rw [List.getElem?_eq_none hi] at hc
    cases hc

/-- The store in memory follows a run, and nothing that is stored changes. -/
theorem follows_exec : ∀ {ls : List Label} {t : RestartedStore} {s : FileProofArtifactStore}
    {order : List (ℕ × StoreOp × StoreAnswer)} {m : MemoryProofArtifactStore H},
    Follows t s → Simulates H s order m → exec (step H) t ls = some t' →
      ∃ s' order' m', Follows t' s' ∧ Simulates H s' order' m' ∧ m.Extends m'
  | [], t, s, order, m, h, hsim, ht => by
    cases ht
    exact ⟨s, order, m, h, hsim, .refl m⟩
  | l :: ls, t, s, order, m, h, hsim, ht => by
    obtain ⟨t₁, ht₁, ht⟩ := Option.bind_eq_some_iff.mp ht
    rcases follows_step h ht₁ (fun sha256 => hsim.unused sha256 _ (Nat.le_refl _)) with
      h₁ | ⟨l', s₁, hs₁, h₁⟩
    · exact follows_exec h₁ hsim ht
    · rcases simulates_step hsim hs₁ with hsim₁ | ⟨i, n, op, -, hsim₁⟩
      · exact follows_exec h₁ hsim₁ ht
      · obtain ⟨s', order', m', h', hsim', hext⟩ := follows_exec h₁ hsim₁ ht
        refine ⟨s', order', m', h', hsim', fun sha256 bytes hbytes => ?_⟩
        exact hext _ _ (MemoryProofArtifactStore.extends_perform m op _ _ hbytes)

theorem follows_new : Follows new .new where
  agrees := ⟨rfl, fun _ => rfl⟩
  length := rfl
  log := rfl
  call _ _ _ h := by cases h

/-- Whatever fails and whenever the process stops, the calls that answer do so as the store in memory
    does in some order; an artifact is complete, was put, and stays; and what was put is read ever
    after, unless the read fails. -/
theorem restarts_refine_memory (H : Bytes → Digest) (ls : List Label) (t : RestartedStore)
    (h : exec (step H) new ls = some t) :
    Linearizable (MemoryProofArtifactStore.perform (H := H)) .empty (t.store.log.filter answered) ∧
      (∀ sha256 bytes, t.store.directory.content (.artifact sha256) = some bytes →
        (H bytes).val = sha256 ∧ SizeOk bytes.length ∧
          (∃ i, .invoke i (.put bytes) ∈ t.store.log) ∧
          ∀ ls' t', exec (step H) t ls' = some t' →
            t'.store.directory.content (.artifact sha256) = some bytes) ∧
      (∀ i sha256 bytes, .invoke i (.get sha256) ∈ t.store.log →
        .respond i (.get (.ok (some bytes))) ∈ t.store.log →
          (H bytes).val = sha256 ∧ ∃ j, .invoke j (.put bytes) ∈ t.store.log) ∧
      ∀ i j proof stored answer, .invoke i (.put proof) ∈ t.store.log →
        [.respond i (.put (.ok stored)), .invoke j (.get stored.sha256)].Sublist t.store.log →
          .respond j answer ∈ t.store.log →
            answer = .get (.ok (some proof)) ∨ answered (.respond j answer) = false := by
  obtain ⟨s, order, m, hf, hsim, -⟩ := follows_exec follows_new simulates_new h
  have hinvoked : ∀ {i op}, .invoke i op ∈ t.store.log → .invoke i op ∈ s.log := by
    intro i op hmem
    exact hf.log ▸ List.mem_filter.mpr ⟨hmem, rfl⟩
  have hlog : ∀ {p}, p ∈ s.log → p ∈ t.store.log := by
    intro p hp
    exact (List.mem_filter.mp (hf.log ▸ hp)).1
  have hcontent : ∀ sha256, t.store.directory.content (.artifact sha256) = m.artifacts sha256 :=
    fun sha256 => (hf.agrees.content sha256).trans (hsim.content sha256)
  refine ⟨hf.log ▸ hsim.linearized.linearizable, ?_, ?_, ?_⟩
  · intro sha256 bytes hbytes
    rw [hcontent] at hbytes
    obtain ⟨hdigest, hsize⟩ := m.addressed sha256 bytes hbytes
    refine ⟨hdigest, hsize, ?_, ?_⟩
    · rcases performs_stored hsim.linearized.performs hbytes with hnone | ⟨⟨i, op, answer⟩, hc, rfl⟩
      · cases hnone
      · exact ⟨i, hlog (hsim.linearized.invoked _ hc)⟩
    · intro ls' t' ht'
      obtain ⟨s', order', m', hf', hsim', hext⟩ := follows_exec hf hsim ht'
      rw [hf'.agrees.content, hsim'.content]
      exact hext _ _ hbytes
  · intro i sha256 bytes hinvoke hrespond
    have hrespond : .respond i (.get (.ok (some bytes))) ∈ s.log :=
      hf.log ▸ List.mem_filter.mpr ⟨hrespond, rfl⟩
    obtain ⟨hdigest, j, hput⟩ := hsim.got (hsim.answered (hinvoked hinvoke) hrespond)
    exact ⟨hdigest, j, hlog hput⟩
  · intro i j proof stored answer hinvoke hpair hrespond
    by_cases hanswered : answered (.respond j answer) = true
    · refine Or.inl ?_
      have hpair : [.respond i (.put (.ok stored)), .invoke j (.get stored.sha256)].Sublist s.log :=
        hf.log ▸ hpair.filter answered
      have hput := hsim.answered (hinvoked hinvoke) (mem_of_pair hpair).1
      have hget := hsim.answered (mem_of_pair hpair).2
        (hf.log ▸ List.mem_filter.mpr ⟨hrespond, hanswered⟩)
      obtain ⟨op, hordered⟩ :=
        hsim.linearized.ordered i _ (j, .get stored.sha256, answer) hpair hget
      obtain ⟨rfl, -⟩ := hsim.linearized.unique (mem_of_pair hordered).1 hput
      exact hsim.kept hordered
    · exact Or.inr (Bool.of_not_eq_true hanswered)

/-! ### A stop in the middle of a put -/

/-- The process stops while it writes, and the next one has its id. The first put there finds the
    name of its temporary file taken, the second one stores the proof, and a read fails once. -/
def stoppedLabels : List Label :=
  [.invoke (.put [1, 2]), .run 0 0, .run 0 0, .run 0 0, .run 0 1, .restart true,
    .invoke (.put [1, 2]), .run 1 0, .run 1 0, .run 1 0, .run 1 0,
    .invoke (.put [1, 2]), .run 2 0, .run 2 0, .run 2 0, .run 2 2, .run 2 0, .run 2 0, .fail 2,
    .invoke (.get (constantHash []).val), .run 3 0, .fail 3,
    .invoke (.get (constantHash []).val), .run 4 0, .run 4 0, .run 4 0]

theorem stopped_put_retried : ∃ t, exec (step constantHash) new stoppedLabels = some t ∧
    t.store.log.filterMap (fun | .respond i answer => some (i, answer) | _ => none) =
      [(1, .put (.error .io)), (2, .put (.ok (storedArtifact constantHash [1, 2]))),
        (3, .get (.error .io)), (4, .get (.ok (some [1, 2])))] ∧
    Linearizable (MemoryProofArtifactStore.perform (H := constantHash)) .empty
      (t.store.log.filter answered) :=
  ⟨_, rfl, by decide, (restarts_refine_memory constantHash stoppedLabels _ rfl).1⟩

end RestartedStore

end SoulSociety.Provider
