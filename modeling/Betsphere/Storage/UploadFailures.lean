import Betsphere.Storage.Uploads
set_option autoImplicit false

namespace Betsphere

def UploadAct.IsStart : UploadAct → Prop
  | .start _ => True
  | _ => False

/-- The pending await of call `i` ends in an error. A save does by itself when the user's
name or email belongs to somebody else. -/
def UploadAct.Fails (db : Db) (i : Nat) (phase : UploadPhase) : UploadAct → Prop
  | .start _ => False
  | .next j _ => j = i ∧ ∃ user, phase = .save (.ofUser user) ∧ (user.uniqueError db).isSome
  | .fail j _ _ => j = i

/-- The file behind the owner's stored URL is one the call has removed. -/
def UploadPhase.Orphaned (storage : LocalFileStorage) (owner : ImageOwner) (ext : String)
    (db : Db) (phase : UploadPhase) : Prop :=
  ∃ url other, owner.storedUrl db = some url ∧ other ∈ phase.removed ext ∧
    storage.requestedKey url = some (owner.key other)

namespace Uploads

def Shows (storage : LocalFileStorage) (owner : ImageOwner) (w : Uploads) : Prop :=
  ∃ url, owner.storedUrl w.db = some url ∧ storage.serves w.files url

/-- A call fails after it has removed the file the owner's stored URL names. -/
def Orphans (storage : LocalFileStorage) (w : Uploads) (a : UploadAct) : Prop :=
  ∃ i request ext phase, w.calls[i]? = some (.running request ext phase) ∧
    a.Fails w.db i phase ∧ phase.Orphaned storage request.owner ext w.db

end Uploads

/-- What a call running alone keeps: the file behind the stored URL is there exactly when
the call has not removed it. -/
structure UploadPhase.Kept (storage : LocalFileStorage) (owner : ImageOwner) (ext : String)
    (db : Db) (files : Files) (phase : UploadPhase) : Prop where
  allowed : ext ∈ Image.extensions
  wf : phase.Wf storage owner ext db
  written : ∀ copy, phase = .save copy → storage.Has files (owner.key ext)
  shown : ∃ url key, owner.storedUrl db = some url ∧ storage.requestedKey url = some key ∧
    (storage.Has files key ↔ ∀ other ∈ phase.removed ext, key ≠ owner.key other)

section Alone
variable {storage : LocalFileStorage} {request : UploadRequest} {ext : String} {env : UploadEnv}
  {db db' : Db} {files files' : Files} {phase phase' : UploadPhase}

theorem kept_quiet {owner : ImageOwner} (h : phase.Kept storage owner ext db files)
    (hwf : phase'.Wf storage owner ext db) (hsave : ∀ copy, phase' ≠ .save copy)
    (hremoved : phase'.removed ext = phase.removed ext) :
    phase'.Kept storage owner ext db files :=
  ⟨h.allowed, hwf, fun copy hc => absurd hc (hsave copy), hremoved ▸ h.shown⟩

theorem removing_ne_save {copy copy' : UploadCopy} {exts : List String} :
    UploadPhase.removing copy exts ≠ .save copy' := by
  cases exts <;> simp [UploadPhase.removing]

theorem UploadPhase.Early.ne_save {copy : UploadCopy} (h : phase.Early ext) :
    phase ≠ .save copy := by
  obtain ⟨copy', rfl⟩ | ⟨market, rfl⟩ := h
  · exact removing_ne_save
  · simp

theorem kept_advance (h : phase.Kept storage request.owner ext db files)
    (ha : request.advance storage ext env db files phase = (db', files', .goto phase')) :
    phase'.Kept storage request.owner ext db' files' := by
  have hwf' := UploadRequest.advance_wf h.allowed h.wf ha
  cases phase with
  | load =>
    simp only [UploadRequest.advance, Prod.mk.injEq] at ha
    obtain ⟨rfl, rfl, hnext⟩ := ha
    have hearly := UploadRequest.onLoaded_early hnext
    exact kept_quiet h hwf' (fun _ => hearly.ne_save)
      (hearly.removed.trans (UploadPhase.removed_none rfl).symm)
  | siblings market =>
    simp only [UploadRequest.advance, Prod.mk.injEq] at ha
    obtain ⟨rfl, rfl, hnext⟩ := ha
    have hearly := UploadRequest.onSiblings_early hnext
    exact kept_quiet h hwf' (fun _ => hearly.ne_save)
      (hearly.removed.trans (UploadPhase.removed_none rfl).symm)
  | delete copy other rest =>
    have hsuffix := h.wf.2.2
    have hother := (Image.mem_others.mp (hsuffix.subset List.mem_cons_self)).1
    obtain ⟨rfl, hnext, hhas⟩ := UploadRequest.advance_delete hother ha
    cases hnext
    obtain ⟨url, key, hurl, hkey, hfile⟩ := h.shown
    refine ⟨h.allowed, hwf', fun copy hc => absurd hc removing_ne_save, url, key, hurl, hkey, ?_⟩
    rw [hhas, hfile]
    constructor
    · rintro ⟨hne, hothers⟩ e he
      rcases (UploadPhase.mem_removed_delete hsuffix).mp he with rfl | he
      · exact hne
      · exact hothers e he
    · intro hothers
      exact ⟨hothers other ((UploadPhase.mem_removed_delete hsuffix).mpr (.inl rfl)),
        fun e he => hothers e ((UploadPhase.mem_removed_delete hsuffix).mpr (.inr he))⟩
  | put copy =>
    obtain ⟨rfl, hnext, hhas⟩ := UploadRequest.advance_put h.allowed ha
    cases hnext
    obtain ⟨url, key, hurl, hkey, hfile⟩ := h.shown
    refine ⟨h.allowed, hwf', fun _ _ => (hhas _).mpr (.inl rfl), url, key, hurl, hkey, ?_⟩
    rw [hhas, hfile]
    constructor
    · rintro (rfl | hothers) e he
      · intro hk
        have hne := (Image.mem_others.mp (UploadPhase.mem_removed.mp he).1).2
        exact hne (ImageOwner.key_injective hk).symm
      · exact hothers e he
    · exact .inr
  | save copy =>
    have hwritten := h.written copy rfl
    obtain ⟨howner, hrow, now, hcopy⟩ := h.wf
    simp only [UploadRequest.advance] at ha
    split at ha
    · simp at ha
    · rename_i db₁ hsave
      simp only [Prod.mk.injEq] at ha
      obtain ⟨rfl, rfl, hnext⟩ := ha
      have hurl := UploadCopy.save_storedUrl hsave (howner ▸ hrow)
      rw [howner, hcopy] at hurl
      have hquiet : ∀ copy', phase' ≠ .save copy' := by
        rintro copy' rfl
        cases copy <;> simp [UploadCopy.onSaved] at hnext
      refine ⟨h.allowed, hwf', fun copy' hc => absurd hc (hquiet copy'), _, _, hurl,
        ImageOwner.requestedKey_url storage request.owner now h.allowed, ?_⟩
      refine iff_of_true hwritten fun e he hk => ?_
      have hne := (Image.mem_others.mp (UploadPhase.mem_removed.mp he).1).2
      exact hne (ImageOwner.key_injective hk).symm
  | siblingsAfter market => simp [UploadRequest.advance] at ha

theorem has_leave {key : Text} {left : Option (List UInt8)} (hext : ext ∈ Image.extensions)
    (hkey : key ≠ request.owner.key ext) :
    storage.Has (request.leave storage ext files left phase) key ↔ storage.Has files key := by
  cases phase with
  | put copy =>
    cases left with
    | none => rfl
    | some bytes =>
      obtain ⟨files', hput⟩ := UploadRequest.put_ok storage request files bytes hext
      simp only [UploadRequest.leave, hput]
      rw [LocalFileStorage.has_put hput]
      simp [hkey]
  | _ => rfl

theorem has_leave_of_has {key : Text} {left : Option (List UInt8)} (hext : ext ∈ Image.extensions)
    (h : storage.Has files key) :
    storage.Has (request.leave storage ext files left phase) key := by
  cases phase with
  | put copy =>
    cases left with
    | none => exact h
    | some bytes =>
      obtain ⟨files', hput⟩ := UploadRequest.put_ok storage request files bytes hext
      simp only [UploadRequest.leave, hput]
      exact (LocalFileStorage.has_put hput).mpr (.inr h)
  | _ => exact h

/-- After a failure the stored URL finds its file unless the call has removed it. -/
theorem shows_after_failure {calls : List UploadCall}
    (h : phase.Kept storage request.owner ext db files)
    (hothers : ∀ key, key ≠ request.owner.key ext →
      (storage.Has files' key ↔ storage.Has files key))
    (hkeeps : ∀ key, storage.Has files key → storage.Has files' key) :
    Uploads.Shows storage request.owner ⟨db, files', calls⟩ ↔
      ¬phase.Orphaned storage request.owner ext db := by
  obtain ⟨url, key, hurl, hkey, hfile⟩ := h.shown
  constructor
  · rintro ⟨url', hurl', hserves⟩ ⟨url'', other, hurl'', hother, hrequested⟩
    cases hurl.symm.trans hurl'
    cases hurl.symm.trans hurl''
    cases hkey.symm.trans hrequested
    obtain ⟨key', hkey', hhas⟩ := LocalFileStorage.serves_iff.mp hserves
    cases hkey.symm.trans hkey'
    have hne : request.owner.key other ≠ request.owner.key ext := fun hk =>
      (Image.mem_others.mp (UploadPhase.mem_removed.mp hother).1).2 (ImageOwner.key_injective hk)
    exact hfile.mp ((hothers _ hne).mp hhas) other hother rfl
  · intro hkept
    have hhas : storage.Has files key :=
      hfile.mpr fun other hother hk => hkept ⟨url, other, hurl, hother, hk ▸ hkey⟩
    exact ⟨url, hurl, LocalFileStorage.serves_iff.mpr ⟨key, hkey, hkeeps key hhas⟩⟩

theorem advance_error {e : ApplicationError} (h : phase.Kept storage request.owner ext db files)
    (ha : request.advance storage ext env db files phase = (db', files', .reply (.error e))) :
    db' = db ∧ files' = files ∧ (phase.removed ext = [] ∨
      ∃ user, phase = .save (.ofUser user) ∧ (user.uniqueError db).isSome) := by
  cases phase with
  | load =>
    simp only [UploadRequest.advance, Prod.mk.injEq] at ha
    exact ⟨ha.1.symm, ha.2.1.symm, .inl (UploadPhase.removed_none rfl)⟩
  | siblings market =>
    simp only [UploadRequest.advance, Prod.mk.injEq] at ha
    exact ⟨ha.1.symm, ha.2.1.symm, .inl (UploadPhase.removed_none rfl)⟩
  | delete copy other rest =>
    have hother := (Image.mem_others.mp (h.wf.2.2.subset List.mem_cons_self)).1
    obtain ⟨-, hnext, -⟩ := UploadRequest.advance_delete hother ha
    cases hnext
  | put copy =>
    obtain ⟨-, hnext, -⟩ := UploadRequest.advance_put h.allowed ha
    cases hnext
  | save copy =>
    simp only [UploadRequest.advance] at ha
    split at ha
    · rename_i e' hsave
      simp only [Prod.mk.injEq] at ha
      refine ⟨ha.1.symm, ha.2.1.symm, .inr ?_⟩
      cases copy with
      | ofUser user => exact ⟨user, rfl, save_error hsave⟩
      | ofMarket market => simp [UploadCopy.save] at hsave
      | ofOutcome market outcomes outcome => simp [UploadCopy.save] at hsave
    · rename_i db₁ hsave
      cases copy <;> simp [UploadCopy.onSaved] at ha
  | siblingsAfter market => simp [UploadRequest.advance] at ha

theorem advance_taken {user : User} {next : UploadNext} (huser : (user.uniqueError db).isSome)
    (ha : request.advance storage ext env db files (.save (.ofUser user)) = (db', files', next)) :
    ∃ e, next = .reply (.error e) := by
  simp only [UploadRequest.advance] at ha
  split at ha
  · cases ha
    exact ⟨_, rfl⟩
  · rename_i db₁ hsave
    simp [(save_ok hsave).1] at huser

end Alone

/-- The one call of a run, while the awaits it has made have not failed. -/
def Uploads.Alone (storage : LocalFileStorage) (request : UploadRequest) (w : Uploads) : Prop :=
  (∃ ext phase, w.calls = [.running request ext phase] ∧
    phase.Kept storage request.owner ext w.db w.files) ∨
  ∃ answer, w.calls = [.returned request answer]

def Uploads.Broken (storage : LocalFileStorage) (request : UploadRequest) (w : Uploads) : Prop :=
  ∃ e, w.calls = [.returned request (.error e)] ∧ ¬w.Shows storage request.owner

section Runs
variable {storage : LocalFileStorage} {request : UploadRequest} {w w' : Uploads} {a : UploadAct}

theorem returned_stays {answer : Except ApplicationError UploadReply}
    (hcalls : w.calls = [.returned request answer]) (ha : ¬a.IsStart) :
    w.step storage a = none := by
  cases a with
  | start request => exact absurd trivial ha
  | next i env => cases i <;> simp [Uploads.step, hcalls]
  | fail i message left => cases i <;> simp [Uploads.step, hcalls]

theorem step_alone (hw : w.Alone storage request) (ha : ¬a.IsStart)
    (hs : w.step storage a = some w') :
    w'.Alone storage request ∧ (w'.Broken storage request ↔ w.Orphans storage a) := by
  obtain ⟨ext, phase, hcalls, hkept⟩ | ⟨answer, hcalls⟩ := hw
  swap
  · simp [returned_stays hcalls ha] at hs
  have horphans : w.Orphans storage a ↔
      a.Fails w.db 0 phase ∧ phase.Orphaned storage request.owner ext w.db := by
    constructor
    · rintro ⟨i, request', ext', phase', hi, hfails, horphaned⟩
      cases i with
      | zero =>
        simp only [hcalls, List.getElem?_cons_zero, Option.some.injEq,
          UploadCall.running.injEq] at hi
        obtain ⟨rfl, rfl, rfl⟩ := hi
        exact ⟨hfails, horphaned⟩
      | succ i => simp [hcalls] at hi
    · rintro ⟨hfails, horphaned⟩
      exact ⟨0, request, ext, phase, by simp [hcalls], hfails, horphaned⟩
  cases a with
  | start request => exact absurd trivial ha
  | next i env =>
    cases i with
    | succ i => simp [Uploads.step, hcalls] at hs
    | zero =>
      rcases hadvance : request.advance storage ext env w.db w.files phase with ⟨db', files', next⟩
      simp only [Uploads.step, hcalls, List.getElem?_cons_zero, List.set_cons_zero, hadvance,
        Option.some.injEq] at hs
      subst hs
      cases next with
      | goto phase' =>
        refine ⟨.inl ⟨ext, phase', rfl, kept_advance hkept hadvance⟩, ?_⟩
        refine iff_of_false (by rintro ⟨e, he, -⟩; simp [UploadNext.call] at he) fun horph => ?_
        obtain ⟨⟨-, user, rfl, huser⟩, -⟩ := horphans.mp horph
        obtain ⟨e, he⟩ := advance_taken huser hadvance
        cases he
      | reply answer =>
        refine ⟨.inr ⟨answer, rfl⟩, ?_⟩
        cases answer with
        | ok reply =>
          refine iff_of_false (by rintro ⟨e, he, -⟩; simp [UploadNext.call] at he) fun horph => ?_
          obtain ⟨⟨-, user, rfl, huser⟩, -⟩ := horphans.mp horph
          obtain ⟨e, he⟩ := advance_taken huser hadvance
          cases he
        | error e =>
          obtain ⟨rfl, rfl, hwhy⟩ := advance_error hkept hadvance
          have hshows : Uploads.Shows storage request.owner
              ⟨w.db, w.files, [UploadNext.call request ext (.reply (.error e))]⟩ ↔
                ¬phase.Orphaned storage request.owner ext w.db :=
            shows_after_failure hkept (fun key _ => Iff.rfl) fun key hkey => hkey
          rw [horphans]
          constructor
          · rintro ⟨-, -, hlost⟩
            have horphaned := not_not.mp (mt hshows.mpr hlost)
            rcases hwhy with hnone | ⟨user, rfl, huser⟩
            · obtain ⟨url, other, -, hother, -⟩ := horphaned
              simp [hnone] at hother
            · exact ⟨⟨rfl, user, rfl, huser⟩, horphaned⟩
          · rintro ⟨-, horphaned⟩
            exact ⟨e, rfl, fun hs => hshows.mp hs horphaned⟩
  | fail i message left =>
    cases i with
    | succ i => simp [Uploads.step, hcalls] at hs
    | zero =>
      simp only [Uploads.step, hcalls, List.getElem?_cons_zero, List.set_cons_zero,
        Option.some.injEq] at hs
      subst hs
      have hshows : Uploads.Shows storage request.owner
          ⟨w.db, request.leave storage ext w.files left phase,
            [.returned request (.error (phase.failure message))]⟩ ↔
            ¬phase.Orphaned storage request.owner ext w.db :=
        shows_after_failure hkept (fun key hkey => has_leave hkept.allowed hkey)
          fun key hkey => has_leave_of_has hkept.allowed hkey
      refine ⟨.inr ⟨_, rfl⟩, ?_⟩
      rw [horphans]
      constructor
      · rintro ⟨-, -, hlost⟩
        exact ⟨rfl, not_not.mp (mt hshows.mpr hlost)⟩
      · rintro ⟨-, horphaned⟩
        exact ⟨_, rfl, fun hs => hshows.mp hs horphaned⟩

theorem step_start {db : Db} {files : Files} {url : Text}
    (hurl : request.owner.storedUrl db = some url) (hfile : storage.serves files url)
    (hs : Uploads.step storage ⟨db, files, []⟩ (.start request) = some w) :
    w.Alone storage request ∧ ¬w.Broken storage request := by
  simp only [Uploads.step] at hs
  split at hs
  · cases hs
    exact ⟨.inr ⟨_, rfl⟩, fun ⟨e, _, hlost⟩ => hlost ⟨url, hurl, hfile⟩⟩
  · rename_i ext hvalid
    cases hs
    obtain ⟨key, hkey, hhas⟩ := LocalFileStorage.serves_iff.mp hfile
    refine ⟨.inl ⟨ext, .load, rfl, UploadRequest.validate_ok hvalid, trivial, ?_, ?_⟩, ?_⟩
    · simp
    · exact ⟨url, key, hurl, hkey, iff_of_true hhas (by simp [UploadPhase.removed_none (rfl :
        UploadPhase.load.pending ext = Image.others ext)])⟩
    · rintro ⟨e, he, -⟩
      simp at he

end Runs

namespace Uploads.Sample

def storage : LocalFileStorage := ⟨["files".toList], "/api/files".toList⟩

def dave : User :=
  { User.new ⟨4⟩ ⟨"dave".toList, by decide, by decide⟩ ⟨"dave@b.org".toList⟩ ⟨[]⟩ 0 with
    avatarUrl := some (Image.url storage ((ImageOwner.user ⟨4⟩).key "png") 0) }

def db : Db := { Db.empty with users := Table.empty.upsert dave }

def files : Files :=
  Table.empty.upsert ⟨storage.root ++ ((ImageOwner.user ⟨4⟩).key "png").splitOn '/', [1]⟩

def upload : UploadRequest := .avatar ⟨4⟩ "image/jpeg" [2]

def acts : List UploadAct :=
  [.next 0 ⟨1, none⟩, .next 0 ⟨2, none⟩, .next 0 ⟨3, none⟩, .fail 0 "disk full" none]

def failed : Uploads :=
  ⟨db, .empty, [.returned upload (.error (.internal "disk full"))]⟩

theorem failed_run : Transition.run (Uploads.step storage) ⟨db, files, []⟩
    (.start upload :: acts) = some failed := by
  rfl

theorem failed_loses : ¬failed.Shows storage upload.owner := by
  rintro ⟨url, -, hserves⟩
  obtain ⟨key, -, path, -, hfile⟩ := LocalFileStorage.serves_iff.mp hserves
  simp [failed, Table.find?, Table.empty] at hfile

end Uploads.Sample

section Claims
open Uploads.Sample

/-- A jpg is uploaded over a png; the png is removed, then the write of the jpg fails. -/
theorem failed_upload_drops_image :
    (∃ url, upload.owner.storedUrl db = some url ∧ storage.serves files url) ∧
    Transition.run (Uploads.step storage) ⟨db, files, []⟩ (.start upload :: acts) =
      some failed ∧
    failed.calls = [.returned upload (.error (.internal "disk full"))] ∧
    ¬failed.Shows storage upload.owner :=
  ⟨⟨_, rfl, by decide +kernel⟩, failed_run, rfl, failed_loses⟩

/-- A failed upload keeps the old image unless it fails after it has removed that image. -/
theorem failed_upload_keeps_image {storage : LocalFileStorage} {db : Db} {files : Files}
    {request : UploadRequest} {as : List UploadAct} {w : Uploads} {url : Text}
    (hurl : request.owner.storedUrl db = some url) (hfile : storage.serves files url)
    (halone : ∀ a ∈ as, ¬a.IsStart)
    (hrun : Transition.run (Uploads.step storage) ⟨db, files, []⟩ (.start request :: as) =
      some w) :
    (∀ e, w.calls = [.returned request (.error e)] → w.Shows storage request.owner) ↔
      Transition.Guarded (Uploads.step storage) (fun w a => ¬w.Orphans storage a)
        ⟨db, files, []⟩ (.start request :: as) := by
  obtain ⟨w₁, hstart, hrest⟩ := Transition.run_cons_some hrun
  obtain ⟨hw₁, hsound⟩ := step_start hurl hfile hstart
  have hnext : Transition.Guarded (Uploads.step storage) (fun _ a => ¬a.IsStart) w₁ as :=
    Transition.guarded_of_forall w₁ halone
  constructor
  · intro hshows
    have hend : ¬w.Broken storage request := fun ⟨e, he, hlost⟩ => hlost (hshows e he)
    have hguard : Transition.Guarded (Uploads.step storage) (fun w a => ¬w.Orphans storage a)
        w₁ as := by
      refine Transition.guarded_of_end (fun _ _ _ hw ha hs => (step_alone hw ha hs).1) ?_ ?_
        hw₁ hnext hrest hend
      · intro s a s' hw ha hs
        by_cases horph : s.Orphans storage a
        · exact .inr ((step_alone hw ha hs).2.mpr horph)
        · exact .inl horph
      · rintro s a s' ⟨e, he, -⟩ ha hs
        simp [returned_stays he ha] at hs
    refine ⟨fun ⟨i, _, _, _, hi, _⟩ => by simp at hi, fun w₂ hw₂ => ?_⟩
    cases hstart.symm.trans hw₂
    exact hguard
  · rintro ⟨-, hguard⟩ e he
    have hboth := Transition.guarded_and hnext (hguard w₁ hstart)
    have hstep : ∀ (s : Uploads) (a : UploadAct) (s' : Uploads),
        (s.Alone storage request ∧ ¬s.Broken storage request) →
        (¬a.IsStart ∧ ¬s.Orphans storage a) → s.step storage a = some s' →
        (s'.Alone storage request ∧ ¬s'.Broken storage request) := by
      intro s a s' hs ha hstep
      have hone := step_alone hs.1 ha.1 hstep
      exact ⟨hone.1, fun hbroken => ha.2 (hone.2.mp hbroken)⟩
    have hinv := Transition.run_invariant hstep ⟨hw₁, hsound⟩ hboth hrest
    exact not_not.mp fun hlost => hinv.2 ⟨e, he, hlost⟩

/-- The run above takes a step the condition excludes. -/
theorem failed_upload_keeps_image_jpg :
    ¬Transition.Guarded (Uploads.step storage) (fun w a => ¬w.Orphans storage a)
      ⟨db, files, []⟩ (.start upload :: acts) := by
  intro hguard
  have hurl : upload.owner.storedUrl db = dave.avatarUrl := rfl
  have halone : ∀ a ∈ acts, ¬a.IsStart := by simp [acts, UploadAct.IsStart]
  exact failed_loses ((failed_upload_keeps_image hurl (by decide +kernel) halone failed_run).mpr
    hguard _ rfl)

end Claims

end Betsphere
