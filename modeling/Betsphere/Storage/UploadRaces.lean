import Betsphere.Storage.UploadFailures
set_option autoImplicit false

namespace Betsphere

namespace UploadPhase

/-- Between the load of the owner's row and the write of the new file. -/
def storing : UploadPhase → Bool
  | delete .. => true
  | put _ => true
  | _ => false

/-- Between the load of the owner's row and the save of the new URL. -/
def unsaved : UploadPhase → Bool
  | delete .. => true
  | put _ => true
  | save _ => true
  | _ => false

end UploadPhase

namespace UploadCall

def clears (ext : String) : UploadCall → Bool
  | running _ ext' phase => phase.storing && decide (ext ∈ phase.removed ext')
  | returned .. => false

def unsaved : UploadCall → Bool
  | running _ _ phase => phase.unsaved
  | returned .. => false

def Wrote : UploadCall → Prop
  | running _ _ (.save _) => True
  | running _ _ (.siblingsAfter _) => True
  | returned _ (.ok _) => True
  | _ => False

def Saved : UploadCall → Prop
  | running _ _ (.siblingsAfter _) => True
  | returned _ (.ok _) => True
  | _ => False

end UploadCall

namespace Uploads

/-- A write meets no upload that has removed this type's file and has not written its own;
a save finds its file unless another upload is left that saves after it. -/
def apart (storage : LocalFileStorage) (w : Uploads) : UploadAct → Bool
  | .next i _ =>
    match w.calls[i]? with
    | some (.running _ ext (.put _)) => w.calls.all fun call => !call.clears ext
    | some (.running request ext (.save _)) =>
      (storage.get w.files (request.owner.key ext)).isSome ||
        (w.calls.eraseIdx i).any UploadCall.unsaved
    | _ => true
  | _ => true

/-- The owner's stored URL names a file of the owner, and no file of another type is left. -/
def Live (storage : LocalFileStorage) (owner : ImageOwner) (w : Uploads) : Prop :=
  ∃ url ext, owner.storedUrl w.db = some url ∧ ext ∈ Image.extensions ∧
    storage.requestedKey url = some (owner.key ext) ∧ storage.Has w.files (owner.key ext) ∧
    ∀ other ∈ Image.extensions, other ≠ ext → ¬storage.Has w.files (owner.key other)

def Errored (w : Uploads) : Prop := ∃ request e, .returned request (.error e) ∈ w.calls

end Uploads

structure Uploads.Tidy (storage : LocalFileStorage) (owner : ImageOwner) (w : Uploads) :
    Prop where
  calls : ∀ request ext phase, .running request ext phase ∈ w.calls →
    request.owner = owner ∧ ext ∈ Image.extensions ∧ phase.Wf storage owner ext w.db
  removed : ∀ request ext phase, .running request ext phase ∈ w.calls → phase.storing →
    ∀ other ∈ phase.removed ext, ¬storage.Has w.files (owner.key other)
  single : ∀ call ∈ w.calls, call.Wrote → ∀ ext ∈ Image.extensions,
    ∀ ext' ∈ Image.extensions, storage.Has w.files (owner.key ext) →
    storage.Has w.files (owner.key ext') → ext = ext'
  served : ∀ call ∈ w.calls, call.Saved →
    (∀ request ext phase, .running request ext phase ∈ w.calls → phase.unsaved = false) →
    ∃ url ext, owner.storedUrl w.db = some url ∧ ext ∈ Image.extensions ∧
      storage.requestedKey url = some (owner.key ext) ∧ storage.Has w.files (owner.key ext)

section Sets
variable {α : Type} {xs : List α} {i : Nat} {x y z : α}

theorem mem_set_of_get (hi : xs[i]? = some y) (hx : x ∈ xs) : x = y ∨ x ∈ xs.set i z := by
  obtain ⟨j, hj⟩ := List.mem_iff_getElem?.mp hx
  by_cases hij : i = j
  · subst hij
    exact .inl (Option.some.inj (hj.symm.trans hi))
  · exact .inr (List.mem_iff_getElem?.mpr ⟨j, by rw [List.getElem?_set_ne hij, hj]⟩)

end Sets

theorem UploadPhase.Wf.mono {storage : LocalFileStorage} {owner : ImageOwner} {ext : String}
    {db db' : Db} {phase : UploadPhase} (hrow : owner.HasRow db → owner.HasRow db')
    (h : phase.Wf storage owner ext db) : phase.Wf storage owner ext db' := by
  cases phase with
  | delete copy other rest => exact ⟨h.1, hrow h.2.1, h.2.2⟩
  | put copy => exact ⟨h.1, hrow h.2⟩
  | save copy => exact ⟨h.1, hrow h.2.1, h.2.2⟩
  | _ => trivial

section Steps
variable {storage : LocalFileStorage} {owner : ImageOwner} {w : Uploads} {i : Nat}
  {request : UploadRequest} {ext : String} {phase phase' : UploadPhase} {db' : Db}
  {files' : Files} {call' : UploadCall}

theorem Uploads.Tidy.calls_set (h : w.Tidy storage owner)
    (hi : w.calls[i]? = some (.running request ext phase))
    (hrow : owner.HasRow w.db → owner.HasRow db')
    (hcall : ∀ request' ext' phase', call' = .running request' ext' phase' →
      request' = request ∧ ext' = ext ∧ phase'.Wf storage owner ext db') :
    ∀ request' ext' phase', .running request' ext' phase' ∈ w.calls.set i call' →
      request'.owner = owner ∧ ext' ∈ Image.extensions ∧ phase'.Wf storage owner ext' db' := by
  intro request' ext' phase' hmem
  rcases List.mem_or_eq_of_mem_set hmem with hmem | heq
  · have hwf := h.calls request' ext' phase' hmem
    exact ⟨hwf.1, hwf.2.1, hwf.2.2.mono hrow⟩
  · obtain ⟨rfl, rfl, hwf⟩ := hcall request' ext' phase' heq.symm
    have hold := h.calls request' ext' phase (List.mem_of_getElem? hi)
    exact ⟨hold.1, hold.2.1, hwf⟩

theorem Uploads.Tidy.quiet (h : w.Tidy storage owner)
    (hi : w.calls[i]? = some (.running request ext phase))
    (hcall : ∀ request' ext' phase', call' = .running request' ext' phase' →
      request' = request ∧ ext' = ext ∧ phase'.Wf storage owner ext w.db ∧
        (phase'.storing → phase'.removed ext = []))
    (hwrote : call'.Wrote → (UploadCall.running request ext phase).Wrote)
    (hsaved : call'.Saved → (UploadCall.running request ext phase).Saved)
    (hunsaved : phase.unsaved = false) :
    Uploads.Tidy storage owner ⟨w.db, w.files, w.calls.set i call'⟩ := by
  have hmem := List.mem_of_getElem? hi
  refine ⟨h.calls_set hi id fun r e p hp => ?_, ?_, ?_, ?_⟩
  · obtain ⟨hr, he, hwf, -⟩ := hcall r e p hp
    exact ⟨hr, he, hwf⟩
  · intro r e p hp hstoring other hother
    rcases List.mem_or_eq_of_mem_set hp with hp | heq
    · exact h.removed r e p hp hstoring other hother
    · obtain ⟨rfl, rfl, -, hnone⟩ := hcall r e p heq.symm
      simp [hnone hstoring] at hother
  · intro call hc hw
    rcases List.mem_or_eq_of_mem_set hc with hc | rfl
    · exact h.single call hc hw
    · exact h.single _ hmem (hwrote hw)
  · intro call hc hs hnone
    have hnone' : ∀ r e p, .running r e p ∈ w.calls → p.unsaved = false := by
      intro r e p hp
      rcases mem_set_of_get (z := call') hi hp with heq | hp
      · cases heq
        exact hunsaved
      · exact hnone r e p hp
    rcases List.mem_or_eq_of_mem_set hc with hc | rfl
    · exact h.served call hc hs hnone'
    · exact h.served _ hmem (hsaved hs) hnone'

theorem Uploads.Tidy.stored (h : w.Tidy storage owner)
    (hi : w.calls[i]? = some (.running request ext phase))
    (hwf : phase'.Wf storage owner ext w.db) (hunsaved : phase'.unsaved)
    (hremoved : ∀ request' ext' phase'', .running request' ext' phase'' ∈ w.calls →
      phase''.storing → ∀ other ∈ phase''.removed ext',
      ¬storage.Has files' (owner.key other))
    (hown : phase'.storing → ∀ other ∈ phase'.removed ext, ¬storage.Has files' (owner.key other))
    (hsingle : ∀ call ∈ w.calls.set i (.running request ext phase'), call.Wrote →
      ∀ ext ∈ Image.extensions, ∀ ext' ∈ Image.extensions, storage.Has files' (owner.key ext) →
      storage.Has files' (owner.key ext') → ext = ext') :
    Uploads.Tidy storage owner ⟨w.db, files', w.calls.set i (.running request ext phase')⟩ := by
  have hmem : .running request ext phase' ∈ w.calls.set i (.running request ext phase') := by
    have hlt := (List.getElem?_eq_some_iff.mp hi).1
    exact List.mem_set hlt _
  refine ⟨h.calls_set hi id fun r e p hp => ?_, ?_, hsingle, ?_⟩
  · cases hp
    exact ⟨rfl, rfl, hwf⟩
  · intro r e p hp hstoring
    rcases List.mem_or_eq_of_mem_set hp with hp | heq
    · exact hremoved r e p hp hstoring
    · cases heq
      exact hown hstoring
  · intro call _ _ hnone
    simp [hnone request ext phase' hmem] at hunsaved

end Steps

section Runs
variable {storage : LocalFileStorage} {owner : ImageOwner} {w w' : Uploads} {a : UploadAct}
  {i : Nat} {request : UploadRequest} {ext : String} {phase phase' : UploadPhase}
  {env : UploadEnv} {db' : Db} {files' : Files} {next : UploadNext}

theorem not_wrote_removing {copy : UploadCopy} {exts : List String} :
    ¬(UploadCall.running request ext (.removing copy exts)).Wrote := by
  cases exts <;> exact id

theorem UploadPhase.Early.not_wrote (h : phase.Early ext) :
    ¬(UploadCall.running request ext phase).Wrote := by
  obtain ⟨copy, rfl⟩ | ⟨market, rfl⟩ := h
  · exact not_wrote_removing
  · exact id

theorem UploadCall.Saved.wrote {call : UploadCall} (h : call.Saved) : call.Wrote := by
  cases call with
  | running request ext phase => cases phase <;> first | exact h | exact False.elim h
  | returned request answer => cases answer <;> exact h

theorem tidy_delete {copy : UploadCopy} {other : String} {rest : List String}
    (h : w.Tidy storage owner)
    (hi : w.calls[i]? = some (.running request ext (.delete copy other rest)))
    (ha : request.advance storage ext env w.db w.files (.delete copy other rest) =
      (db', files', next)) :
    Uploads.Tidy storage owner ⟨db', files', w.calls.set i (next.call request ext)⟩ := by
  have hmem := List.mem_of_getElem? hi
  obtain ⟨rfl, hext, hwf⟩ := h.calls _ _ _ hmem
  have hsuffix := hwf.2.2
  have hother := (Image.mem_others.mp (hsuffix.subset List.mem_cons_self)).1
  obtain ⟨rfl, rfl, hhas⟩ := UploadRequest.advance_delete hother ha
  have hshrink : ∀ key, ¬storage.Has w.files key → ¬storage.Has files' key :=
    fun key hno hhas' => hno ((hhas key).mp hhas').2
  refine h.stored hi (UploadPhase.removing_wf hwf.1 hwf.2.1 ((List.suffix_cons _ _).trans hsuffix))
    ?_ ?_ ?_ ?_
  · cases rest <;> rfl
  · intro r e p hp hstoring o ho
    exact hshrink _ (h.removed r e p hp hstoring o ho)
  · intro _ e he
    rcases (UploadPhase.mem_removed_delete hsuffix).mp he with rfl | he
    · exact fun hhas' => ((hhas _).mp hhas').1 rfl
    · exact hshrink _ (h.removed _ _ _ hmem rfl e he)
  · intro call hc hw e he e' he' hhe hhe'
    rcases List.mem_or_eq_of_mem_set hc with hc | rfl
    · exact h.single call hc hw e he e' he' ((hhas _).mp hhe).2 ((hhas _).mp hhe').2
    · exact absurd hw not_wrote_removing

theorem tidy_put {copy : UploadCopy} (h : w.Tidy storage owner)
    (hi : w.calls[i]? = some (.running request ext (.put copy)))
    (hapart : w.apart storage (.next i env))
    (ha : request.advance storage ext env w.db w.files (.put copy) = (db', files', next)) :
    Uploads.Tidy storage owner ⟨db', files', w.calls.set i (next.call request ext)⟩ := by
  have hmem := List.mem_of_getElem? hi
  obtain ⟨rfl, hext, hwf⟩ := h.calls _ _ _ hmem
  obtain ⟨rfl, rfl, hhas⟩ := UploadRequest.advance_put hext ha
  simp only [Uploads.apart, hi] at hapart
  -- all other types' files are gone: this call has removed them and none was written since
  have honly : ∀ e ∈ Image.extensions, storage.Has files' (request.owner.key e) → e = ext := by
    intro e he hhe
    by_contra hne
    rcases (hhas _).mp hhe with hkey | hold
    · exact hne (ImageOwner.key_injective hkey)
    · have hgone : e ∈ (UploadPhase.put copy).removed ext :=
        UploadPhase.mem_removed.mpr ⟨Image.mem_others.mpr ⟨he, hne⟩, by simp [UploadPhase.pending]⟩
      exact h.removed _ _ _ hmem rfl e hgone hold
  refine h.stored hi ⟨by simp [hwf.1], hwf.2, env.now, by simp⟩ rfl ?_ ?_ ?_
  · intro r e p hp hstoring o ho hho
    rcases (hhas _).mp hho with hkey | hold
    · have hfree := List.all_eq_true.mp hapart _ hp
      rw [ImageOwner.key_injective hkey] at ho
      simp [UploadCall.clears, hstoring, ho] at hfree
    · exact h.removed r e p hp hstoring o ho hold
  · intro hstoring
    cases hstoring
  · intro call _ _ e he e' he' hhe hhe'
    exact (honly e he hhe).trans (honly e' he' hhe').symm

theorem tidy_early (h : w.Tidy storage owner)
    (hi : w.calls[i]? = some (.running request ext phase)) (hunsaved : phase.unsaved = false)
    (hearly : phase'.Early ext) (hwf : phase'.Wf storage owner ext w.db) :
    Uploads.Tidy storage owner ⟨w.db, w.files, w.calls.set i (.running request ext phase')⟩ := by
  refine h.quiet hi ?_ ?_ ?_ hunsaved
  · intro r e p hp
    cases hp
    exact ⟨rfl, rfl, hwf, fun _ => hearly.removed⟩
  · exact fun hwrote => absurd hwrote hearly.not_wrote
  · exact fun hsaved => absurd hsaved.wrote hearly.not_wrote

theorem tidy_save {copy : UploadCopy} (h : w.Tidy storage owner)
    (hi : w.calls[i]? = some (.running request ext (.save copy)))
    (hapart : w.apart storage (.next i env)) (hsave : copy.save env.now w.db = .ok db') :
    Uploads.Tidy storage owner ⟨db', w.files, w.calls.set i (copy.onSaved.call request ext)⟩ := by
  have hmem := List.mem_of_getElem? hi
  obtain ⟨rfl, hext, howner, hrow, now, hcopy⟩ := h.calls _ _ _ hmem
  have hurl := UploadCopy.save_storedUrl hsave (howner ▸ hrow)
  rw [howner, hcopy] at hurl
  have hcall : ∀ r e p, copy.onSaved.call request ext = .running r e p →
      r = request ∧ e = ext ∧ ∃ market, p = .siblingsAfter market := by
    intro r e p hp
    cases copy <;> simp [UploadCopy.onSaved, UploadNext.call] at hp
    exact ⟨hp.1.symm, hp.2.1.symm, _, hp.2.2.symm⟩
  refine ⟨h.calls_set hi (UploadCopy.save_hasRow hsave) ?_, ?_, ?_, ?_⟩
  · intro r e p hp
    obtain ⟨hr, he, market, rfl⟩ := hcall r e p hp
    exact ⟨hr, he, trivial⟩
  · intro r e p hp hstoring
    rcases List.mem_or_eq_of_mem_set hp with hp | heq
    · exact h.removed r e p hp hstoring
    · obtain ⟨-, -, market, rfl⟩ := hcall r e p heq.symm
      cases hstoring
  · intro call hc hw
    rcases List.mem_or_eq_of_mem_set hc with hc | rfl
    · exact h.single call hc hw
    · exact h.single _ hmem trivial
  · intro call _ _ hnone
    simp only [Uploads.apart, hi, Bool.or_eq_true, List.any_eq_true] at hapart
    rcases hapart with hhas | ⟨other, hother, hunsaved⟩
    · exact ⟨_, ext, hurl, hext, ImageOwner.requestedKey_url storage request.owner now hext,
        LocalFileStorage.has_get.mpr hhas⟩
    · obtain ⟨j, hji, hj⟩ := List.mem_eraseIdx_iff_getElem?.mp hother
      have hj' : other ∈ w.calls.set i (copy.onSaved.call request ext) :=
        List.mem_iff_getElem?.mpr ⟨j, by rw [List.getElem?_set_ne (Ne.symm hji), hj]⟩
      cases other with
      | running r e p => simp [UploadCall.unsaved, hnone r e p hj'] at hunsaved
      | returned r answer => simp [UploadCall.unsaved] at hunsaved

theorem tidy_next (h : w.Tidy storage owner) (hapart : w.apart storage (.next i env))
    (hs : w.step storage (.next i env) = some w') : w'.Tidy storage owner ∨ w'.Errored := by
  simp only [Uploads.step] at hs
  split at hs
  swap
  · simp at hs
  rename_i request ext phase hi
  rcases hadvance : request.advance storage ext env w.db w.files phase with ⟨db', files', next⟩
  simp only [hadvance, Option.some.injEq] at hs
  subst hs
  have hmem := List.mem_of_getElem? hi
  obtain ⟨howner, hext, hwf⟩ := h.calls _ _ _ hmem
  have herror : ∀ e, next = .reply (.error e) →
      Uploads.Errored ⟨db', files', w.calls.set i (next.call request ext)⟩ := by
    rintro e rfl
    exact ⟨request, e, List.mem_set (List.getElem?_eq_some_iff.mp hi).1 _⟩
  cases phase with
  | load =>
    simp only [UploadRequest.advance, Prod.mk.injEq] at hadvance
    obtain ⟨rfl, rfl, hnext⟩ := hadvance
    cases next with
    | goto phase' =>
      exact .inl (tidy_early h hi rfl (UploadRequest.onLoaded_early hnext)
        (howner ▸ UploadRequest.onLoaded_wf hnext))
    | reply answer =>
      obtain ⟨e, rfl⟩ := UploadRequest.onLoaded_reply hnext
      exact .inr (herror e rfl)
  | siblings market =>
    simp only [UploadRequest.advance, Prod.mk.injEq] at hadvance
    obtain ⟨rfl, rfl, hnext⟩ := hadvance
    cases next with
    | goto phase' =>
      exact .inl (tidy_early h hi rfl (UploadRequest.onSiblings_early hnext)
        (howner ▸ UploadRequest.onSiblings_wf hnext))
    | reply answer =>
      obtain ⟨e, rfl⟩ := UploadRequest.onSiblings_reply hnext
      exact .inr (herror e rfl)
  | delete copy other rest => exact .inl (tidy_delete h hi hadvance)
  | put copy => exact .inl (tidy_put h hi hapart hadvance)
  | save copy =>
    simp only [UploadRequest.advance] at hadvance
    split at hadvance
    · cases hadvance
      exact .inr (herror _ rfl)
    · rename_i db₁ hsave
      cases hadvance
      exact .inl (tidy_save h hi hapart hsave)
  | siblingsAfter market =>
    simp only [UploadRequest.advance, Prod.mk.injEq] at hadvance
    obtain ⟨rfl, rfl, rfl⟩ := hadvance
    refine .inl (h.quiet hi ?_ (fun _ => trivial) (fun _ => trivial) rfl)
    intro r e p hp
    cases hp

theorem tidy_start (h : w.Tidy storage owner) (howner : request.owner = owner)
    (hs : w.step storage (.start request) = some w') : w'.Tidy storage owner ∨ w'.Errored := by
  simp only [Uploads.step] at hs
  split at hs
  · rename_i e hvalid
    cases hs
    exact .inr ⟨request, e, by simp⟩
  · rename_i ext hvalid
    cases hs
    have hnew : ∀ call : UploadCall, call ∈ w.calls ++ [.running request ext .load] →
        call ∈ w.calls ∨ call = .running request ext .load := by simp
    refine .inl ⟨?_, ?_, ?_, ?_⟩
    · intro r e p hp
      rcases hnew _ hp with hp | heq
      · exact h.calls r e p hp
      · cases heq
        exact ⟨howner, UploadRequest.validate_ok hvalid, trivial⟩
    · intro r e p hp hstoring
      rcases hnew _ hp with hp | heq
      · exact h.removed r e p hp hstoring
      · cases heq
        cases hstoring
    · intro call hc hw
      rcases hnew _ hc with hc | rfl
      · exact h.single call hc hw
      · exact hw.elim
    · intro call hc hsaved hnone
      rcases hnew _ hc with hc | rfl
      · exact h.served call hc hsaved fun r e p hp => hnone r e p (List.mem_append_left _ hp)
      · exact hsaved.elim

theorem errored_step (h : w.Errored) (hs : w.step storage a = some w') : w'.Errored := by
  obtain ⟨request, e, hmem⟩ := h
  refine ⟨request, e, ?_⟩
  cases a with
  | start request' =>
    simp only [Uploads.step] at hs
    split at hs <;> cases hs <;> exact List.mem_append_left _ hmem
  | next j env =>
    simp only [Uploads.step] at hs
    split at hs
    · rename_i r x p hj
      cases hs
      rcases mem_set_of_get hj hmem with heq | hmem
      · cases heq
      · exact hmem
    · simp at hs
  | fail j message left =>
    simp only [Uploads.step] at hs
    split at hs
    · rename_i r x p hj
      cases hs
      rcases mem_set_of_get hj hmem with heq | hmem
      · cases heq
      · exact hmem
    · simp at hs

/-- What one step leaves of uploads that run apart. -/
theorem step_tidy (h : w.Tidy storage owner ∨ w.Errored) (hapart : w.apart storage a)
    (howner : ∀ request, a = .start request → request.owner = owner)
    (hs : w.step storage a = some w') : w'.Tidy storage owner ∨ w'.Errored := by
  rcases h with h | h
  swap
  · exact .inr (errored_step h hs)
  cases a with
  | start request => exact tidy_start h (howner request rfl) hs
  | next j env => exact tidy_next h hapart hs
  | fail j message left =>
    simp only [Uploads.step] at hs
    split at hs
    · rename_i r x p hj
      cases hs
      exact .inr ⟨r, _, List.mem_set (List.getElem?_eq_some_iff.mp hj).1 _⟩
    · simp at hs

theorem tidy_live (h : w.Tidy storage owner) (hne : w.calls ≠ [])
    (hdone : ∀ call ∈ w.calls, ∃ request reply, call = .returned request (.ok reply)) :
    w.Live storage owner := by
  obtain ⟨call, hcall⟩ := List.exists_mem_of_ne_nil _ hne
  obtain ⟨request, reply, rfl⟩ := hdone call hcall
  have hnone : ∀ r e p, .running r e p ∈ w.calls → p.unsaved = false := by
    intro r e p hp
    obtain ⟨r', reply', heq⟩ := hdone _ hp
    cases heq
  obtain ⟨url, ext, hurl, hext, hkey, hhas⟩ := h.served _ hcall trivial hnone
  refine ⟨url, ext, hurl, hext, hkey, hhas, fun other hother hne hhas' => hne ?_⟩
  exact h.single _ hcall trivial other hother ext hext hhas' hhas

end Runs

namespace Uploads.Sample

def png : UploadRequest := .avatar ⟨4⟩ "image/png" [3]

/-- The jpg removes the png that has just been written and is saved first. -/
def overlapping : List UploadAct :=
  [.start png, .start upload, .next 0 ⟨1, none⟩, .next 0 ⟨1, none⟩, .next 0 ⟨1, none⟩,
    .next 0 ⟨1, none⟩, .next 1 ⟨1, none⟩, .next 1 ⟨1, none⟩, .next 1 ⟨1, none⟩, .next 1 ⟨1, none⟩,
    .next 1 ⟨2, none⟩, .next 0 ⟨2, none⟩]

/-- The same steps, but the png is saved first. -/
def ordered : List UploadAct :=
  [.start png, .start upload, .next 0 ⟨1, none⟩, .next 0 ⟨1, none⟩, .next 0 ⟨1, none⟩,
    .next 0 ⟨1, none⟩, .next 1 ⟨1, none⟩, .next 1 ⟨1, none⟩, .next 1 ⟨1, none⟩, .next 1 ⟨1, none⟩,
    .next 0 ⟨2, none⟩, .next 1 ⟨2, none⟩]

def raced (as : List UploadAct) : Uploads :=
  (Transition.run (Uploads.step storage) ⟨db, files, []⟩ as).getD ⟨db, files, []⟩

def saved (request : UploadRequest) (ext : String) : UploadCall :=
  .returned request (.ok (.user
    (dave.setAvatarUrl (some (Image.url storage ((ImageOwner.user ⟨4⟩).key ext) 1)) 1)))

end Uploads.Sample

section Claims
open Uploads.Sample

/-- Both uploads succeed; the png's URL is saved last and its file is gone. -/
theorem overlapping_uploads_lose_image :
    Transition.run (Uploads.step storage) ⟨db, files, []⟩ overlapping =
      some (raced overlapping) ∧
    (raced overlapping).calls = [saved png "png", saved upload "jpg"] ∧
    ¬(raced overlapping).Live storage (.user ⟨4⟩) := by
  refine ⟨rfl, rfl, ?_⟩
  rintro ⟨url, ext, hurl, -, hkey, hhas, -⟩
  have hstored : (ImageOwner.user ⟨4⟩).storedUrl (raced overlapping).db =
      some (Image.url storage ((ImageOwner.user ⟨4⟩).key "png") 1) := rfl
  obtain rfl := Option.some.inj (hstored.symm.trans hurl)
  have hpng : "png" ∈ Image.extensions := by decide
  have hrequested := ImageOwner.requestedKey_url storage (.user ⟨4⟩) 1 hpng
  obtain heq := Option.some.inj (hrequested.symm.trans hkey)
  rw [← heq, LocalFileStorage.has_get] at hhas
  exact absurd hhas (by decide +kernel)

/-- Uploads for one owner that run apart leave one live image. -/
theorem uploads_leave_live_image {storage : LocalFileStorage} {owner : ImageOwner} {db : Db}
    {files : Files} {as : List UploadAct} {w : Uploads}
    (howner : ∀ request, .start request ∈ as → request.owner = owner)
    (hapart : Transition.Guarded (Uploads.step storage) (fun w a => w.apart storage a = true)
      ⟨db, files, []⟩ as)
    (hrun : Transition.run (Uploads.step storage) ⟨db, files, []⟩ as = some w)
    (hne : w.calls ≠ [])
    (hdone : ∀ call ∈ w.calls, ∃ request reply, call = .returned request (.ok reply)) :
    w.Live storage owner := by
  have howner' : Transition.Guarded (Uploads.step storage)
      (fun _ a => ∀ request, a = .start request → request.owner = owner) ⟨db, files, []⟩ as :=
    Transition.guarded_of_forall _ fun a ha request heq => howner request (heq ▸ ha)
  have hinit : Uploads.Tidy storage owner ⟨db, files, []⟩ := by
    refine ⟨?_, ?_, ?_, ?_⟩ <;> simp
  have hstep : ∀ (s : Uploads) (a : UploadAct) (s' : Uploads),
      (s.Tidy storage owner ∨ s.Errored) →
      (s.apart storage a = true ∧ ∀ request, a = .start request → request.owner = owner) →
      s.step storage a = some s' → (s'.Tidy storage owner ∨ s'.Errored) :=
    fun s a s' hs ha hstep => step_tidy hs ha.1 ha.2 hstep
  have hboth := Transition.guarded_and hapart howner'
  rcases Transition.run_invariant hstep (.inl hinit) hboth hrun with htidy | ⟨request, e, hmem⟩
  · exact tidy_live htidy hne hdone
  · obtain ⟨request', reply, heq⟩ := hdone _ hmem
    cases heq

/-- Two overlapping uploads of different types that are saved in the order of their writes. -/
theorem uploads_leave_live_image_ordered :
    (raced ordered).Live storage (.user ⟨4⟩) := by
  have howner : ∀ request, .start request ∈ ordered → request.owner = .user ⟨4⟩ := by
    intro request hmem
    simp only [ordered, List.mem_cons, UploadAct.start.injEq, reduceCtorEq, List.not_mem_nil,
      or_false] at hmem
    rcases hmem with rfl | rfl <;> rfl
  have hapart : Transition.Guarded (Uploads.step storage)
      (fun w a => w.apart storage a = true) ⟨db, files, []⟩ ordered := by decide +kernel
  have hcalls : (raced ordered).calls = [saved png "png", saved upload "jpg"] := rfl
  refine uploads_leave_live_image howner hapart rfl (by simp [hcalls]) fun call hcall => ?_
  rw [hcalls] at hcall
  rcases List.mem_pair.mp hcall with rfl | rfl
  · exact ⟨_, _, rfl⟩
  · exact ⟨_, _, rfl⟩

end Claims

end Betsphere
