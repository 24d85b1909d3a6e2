import Betsphere.Lib.Transition
import Betsphere.Postgres.Effects
import Betsphere.Storage.ImageKeys
set_option autoImplicit false

/-!
`UploadAvatar`, `UploadMarketThumbnail` and `UploadOutcomeThumbnail`, cut at their awaits.
All three hand the image to `image::store`, which removes the variants of the owner's image
with another extension, writes the new file and answers its URL, and then save that URL.
-/

namespace Betsphere

def maxThumbnailBytes : Nat := 2 * 1024 * 1024

inductive UploadRequest where
  | avatar (userId : UserId) (contentType : String) (bytes : List UInt8)
  | marketThumbnail (actor : Actor) (marketId : MarketId) (contentType : String)
      (bytes : List UInt8)
  | outcomeThumbnail (actor : Actor) (marketId : MarketId) (outcomeId : OutcomeId)
      (contentType : String) (bytes : List UInt8)
  deriving DecidableEq

namespace UploadRequest

def owner : UploadRequest → ImageOwner
  | avatar userId .. => .user userId
  | marketThumbnail _ marketId .. => .market marketId
  | outcomeThumbnail _ _ outcomeId .. => .outcome outcomeId

def bytes : UploadRequest → List UInt8
  | avatar _ _ bytes => bytes
  | marketThumbnail _ _ _ bytes => bytes
  | outcomeThumbnail _ _ _ _ bytes => bytes

/-- What is checked before the first await; the extension the image is stored under. -/
def validate : UploadRequest → Except ApplicationError String
  | avatar _ contentType bytes =>
    match Image.validate "avatar" contentType bytes maxAvatarBytes with
    | .error e => .error (.domain e)
    | .ok ext => .ok ext
  | marketThumbnail actor _ contentType bytes =>
    if !canManageMarkets actor.role then .error (.forbidden "admin role required")
    else
      match Image.validate "thumbnail" contentType bytes maxThumbnailBytes with
      | .error e => .error (.domain e)
      | .ok ext => .ok ext
  | outcomeThumbnail actor _ _ contentType bytes =>
    if !canManageMarkets actor.role then .error (.forbidden "admin role required")
    else
      match Image.validate "thumbnail" contentType bytes maxThumbnailBytes with
      | .error e => .error (.domain e)
      | .ok ext => .ok ext

end UploadRequest

inductive UploadCopy where
  | ofUser (user : User)
  | ofMarket (market : Market)
  | ofOutcome (market : Market) (outcomes : List Outcome) (outcome : Outcome)
  deriving DecidableEq

inductive UploadReply where
  | user (user : User)
  | marketView (market : Market) (outcomes : List Outcome)
  deriving DecidableEq

inductive UploadPhase where
  | load
  | siblings (market : Market)
  | delete (copy : UploadCopy) (ext : String) (rest : List String)
  | put (copy : UploadCopy)
  | save (copy : UploadCopy)
  | siblingsAfter (market : Market)
  deriving DecidableEq

inductive UploadNext where
  | goto (phase : UploadPhase)
  | reply (answer : Except ApplicationError UploadReply)

namespace UploadCopy

def owner : UploadCopy → ImageOwner
  | ofUser user => .user user.id
  | ofMarket market => .market market.id
  | ofOutcome _ _ outcome => .outcome outcome.id

def url? : UploadCopy → Option Text
  | ofUser user => user.avatarUrl
  | ofMarket market => market.thumbnailUrl
  | ofOutcome _ _ outcome => outcome.thumbnailUrl

def setUrl (url : Text) (now : DateTime) : UploadCopy → UploadCopy
  | ofUser user => .ofUser (user.setAvatarUrl (some url) now)
  | ofMarket market => .ofMarket { market with thumbnailUrl := some url }
  | ofOutcome market outcomes outcome =>
    .ofOutcome market
      (outcomes.map fun o => if o.id = outcome.id then { o with thumbnailUrl := some url } else o)
      { outcome with thumbnailUrl := some url }

/-- `users.save`, `update_thumbnail`, `update_outcome_thumbnail`. -/
def save (now : DateTime) (db : Db) : UploadCopy → Except RepositoryError Db
  | ofUser user => pg.atomically (saveProgram user) ⟨now, false⟩ db
  | ofMarket market =>
    .ok { db with
      markets := db.markets.modify market.id
        (fun m => { m with thumbnailUrl := market.thumbnailUrl }) fun _ => rfl }
  | ofOutcome _ _ outcome =>
    .ok { db with
      outcomes := db.outcomes.modify outcome.id
        (fun o => { o with thumbnailUrl := outcome.thumbnailUrl }) fun _ => rfl }

def onSaved : UploadCopy → UploadNext
  | ofUser user => .reply (.ok (.user user))
  | ofMarket market => .goto (.siblingsAfter market)
  | ofOutcome market outcomes _ => .reply (.ok (.marketView market outcomes))

end UploadCopy

/-- The clock, and what a cache before the users' table answers with, if anything. -/
structure UploadEnv where
  now : DateTime
  cached : Option User

def UploadEnv.findUser (env : UploadEnv) (db : Db) (id : UserId) : Option User :=
  (env.cached.filter fun user => user.id = id).or (db.userById id)

/-- The deletes of `image::store` one by one, then its write. -/
def UploadPhase.removing (copy : UploadCopy) : List String → UploadPhase
  | [] => .put copy
  | ext :: rest => .delete copy ext rest

namespace UploadRequest

def onLoaded (env : UploadEnv) (db : Db) (ext : String) : UploadRequest → UploadNext
  | avatar userId .. =>
    match env.findUser db userId with
    | none => .reply (.error (.notFound ("user " ++ toString userId)))
    | some user => .goto (.removing (.ofUser user) (Image.others ext))
  | marketThumbnail _ marketId .. =>
    match db.marketById marketId with
    | none => .reply (.error (.notFound ("market " ++ toString marketId)))
    | some market => .goto (.removing (.ofMarket market) (Image.others ext))
  | outcomeThumbnail _ marketId .. =>
    match db.marketById marketId with
    | none => .reply (.error (.notFound ("market " ++ toString marketId)))
    | some market => .goto (.siblings market)

/-- An outcome of another market is as good as absent. -/
def onSiblings (market : Market) (outcomes : List Outcome) (ext : String) :
    UploadRequest → UploadNext
  | outcomeThumbnail _ marketId outcomeId .. =>
    match outcomes.find? fun o => o.id = outcomeId with
    | none => .reply (.error (.notFound ("outcome " ++ toString outcomeId ++ " of market " ++
        toString marketId)))
    | some outcome => .goto (.removing (.ofOutcome market outcomes outcome) (Image.others ext))
  | _ => .goto (.siblings market)

def advance (storage : LocalFileStorage) (request : UploadRequest) (ext : String)
    (env : UploadEnv) (db : Db) (files : Files) : UploadPhase → Db × Files × UploadNext
  | .load => (db, files, request.onLoaded env db ext)
  | .siblings market => (db, files, request.onSiblings market (db.outcomesFor market.id) ext)
  | .delete copy other rest =>
    match storage.delete files (request.owner.key other) with
    | .error e => (db, files, .reply (.error (.ofStoragePort e)))
    | .ok files => (db, files, .goto (.removing copy rest))
  | .put copy =>
    match storage.put files (request.owner.key ext) request.bytes with
    | .error e => (db, files, .reply (.error (.ofStoragePort e)))
    | .ok files =>
      let url := Image.url storage (request.owner.key ext) env.now
      (db, files, .goto (.save (copy.setUrl url env.now)))
  | .save copy =>
    match copy.save env.now db with
    | .error e => (db, files, .reply (.error (.ofRepository e)))
    | .ok db => (db, files, copy.onSaved)
  | .siblingsAfter market =>
    (db, files, .reply (.ok (.marketView market (db.outcomesFor market.id))))

/-- What a write that failed has left of the file. -/
def leave (storage : LocalFileStorage) (request : UploadRequest) (ext : String) (files : Files)
    (left : Option (List UInt8)) : UploadPhase → Files
  | .put _ =>
    match left with
    | none => files
    | some bytes =>
      match storage.put files (request.owner.key ext) bytes with
      | .error _ => files
      | .ok files => files
  | _ => files

end UploadRequest

def UploadPhase.failure (message : String) : UploadPhase → ApplicationError
  | .delete .. => .ofStoragePort (.internal message)
  | .put _ => .ofStoragePort (.internal message)
  | _ => .ofRepository (.storage message)

/-- A call with the extension its image was validated for, until it has returned. -/
inductive UploadCall where
  | running (request : UploadRequest) (ext : String) (phase : UploadPhase)
  | returned (request : UploadRequest) (answer : Except ApplicationError UploadReply)

def UploadNext.call (request : UploadRequest) (ext : String) : UploadNext → UploadCall
  | goto phase => .running request ext phase
  | reply answer => .returned request answer

structure Uploads where
  db : Db
  files : Files
  calls : List UploadCall

/-- A `fail` is an await that ends in a storage or repository error. -/
inductive UploadAct where
  | start (request : UploadRequest)
  | next (i : Nat) (env : UploadEnv)
  | fail (i : Nat) (message : String) (left : Option (List UInt8))

def Uploads.step (storage : LocalFileStorage) (w : Uploads) : UploadAct → Option Uploads
  | .start request =>
    match request.validate with
    | .error e => some { w with calls := w.calls ++ [.returned request (.error e)] }
    | .ok ext => some { w with calls := w.calls ++ [.running request ext .load] }
  | .next i env =>
    match w.calls[i]? with
    | some (.running request ext phase) =>
      match request.advance storage ext env w.db w.files phase with
      | (db, files, next) => some ⟨db, files, w.calls.set i (next.call request ext)⟩
    | _ => none
  | .fail i message left =>
    match w.calls[i]? with
    | some (.running request ext phase) =>
      some { w with
        files := request.leave storage ext w.files left phase
        calls := w.calls.set i (.returned request (.error (phase.failure message))) }
    | _ => none

theorem UploadRequest.validate_ok {request : UploadRequest} {ext : String}
    (h : request.validate = .ok ext) : ext ∈ Image.extensions := by
  cases request with
  | avatar userId contentType bytes =>
    simp only [validate] at h
    split at h
    · simp at h
    · cases h
      exact Image.validate_ok ‹_›
  | marketThumbnail actor marketId contentType bytes =>
    simp only [validate] at h
    split_ifs at h
    split at h
    · simp at h
    · cases h
      exact Image.validate_ok ‹_›
  | outcomeThumbnail actor marketId outcomeId contentType bytes =>
    simp only [validate] at h
    split_ifs at h
    split at h
    · simp at h
    · cases h
      exact Image.validate_ok ‹_›

/-- The row an update of the URL changes; a user's row is written whole. -/
def ImageOwner.HasRow (owner : ImageOwner) (db : Db) : Prop :=
  match owner with
  | .user _ => True
  | .market id => (db.marketById id).isSome
  | .outcome id => (db.outcomeById id).isSome

theorem save_error {db : Db} {user : User} {l : TxVars} {e : RepositoryError}
    (h : pg.atomically (saveProgram user) l db = .error e) : (user.uniqueError db).isSome := by
  cases hu : user.uniqueError db with
  | some e => rfl
  | none =>
    have he : pg.exec (.upsertUser user) l db = .ok ([.user (db.savedRow user)], l) := by
      unfold Db.savedRow
      cases hf : db.userById user.id <;> simp [Statement.exec, hu, hf]
    have hok := RowLock.Dialect.atomically_ok.mpr
      ⟨l, (RowLock.Dialect.steps_of_exec he).mpr ⟨rfl, rfl⟩⟩
    simp [saveProgram, hok] at h

section Saving
variable {copy : UploadCopy} {owner : ImageOwner} {db db' : Db} {now : DateTime}

theorem UploadCopy.save_hasRow (h : copy.save now db = .ok db') (hrow : owner.HasRow db) :
    owner.HasRow db' := by
  cases copy with
  | ofUser user =>
    obtain ⟨-, rfl⟩ := save_ok h
    exact hrow
  | ofMarket market =>
    cases h
    cases owner with
    | user id => trivial
    | market id =>
      simp only [ImageOwner.HasRow, Db.marketById, Table.find?_modify] at hrow ⊢
      split <;> simpa using hrow
    | outcome id => exact hrow
  | ofOutcome market outcomes outcome =>
    cases h
    cases owner with
    | user id => trivial
    | market id => exact hrow
    | outcome id =>
      simp only [ImageOwner.HasRow, Db.outcomeById, Table.find?_modify] at hrow ⊢
      split <;> simpa using hrow

theorem UploadCopy.save_storedUrl (h : copy.save now db = .ok db') (hrow : copy.owner.HasRow db) :
    copy.owner.storedUrl db' = copy.url? := by
  cases copy with
  | ofUser user =>
    obtain ⟨-, rfl⟩ := save_ok h
    have hsaved : (db.savedRow user).id = user.id ∧
        (db.savedRow user).avatarUrl = user.avatarUrl := by
      unfold Db.savedRow
      split <;> exact ⟨rfl, rfl⟩
    simp [UploadCopy.owner, ImageOwner.storedUrl, Db.userById, Db.saved, Table.find?_upsert,
      hsaved.1, hsaved.2, UploadCopy.url?]
  | ofMarket market =>
    cases h
    obtain ⟨m, hm⟩ := Option.isSome_iff_exists.mp hrow
    change db.markets.find? market.id = some m at hm
    simp [UploadCopy.owner, ImageOwner.storedUrl, Db.marketById, Table.find?_modify, hm,
      UploadCopy.url?]
  | ofOutcome market outcomes outcome =>
    cases h
    obtain ⟨o, ho⟩ := Option.isSome_iff_exists.mp hrow
    change db.outcomes.find? outcome.id = some o at ho
    simp [UploadCopy.owner, ImageOwner.storedUrl, Db.outcomeById, Table.find?_modify, ho,
      UploadCopy.url?]

@[simp] theorem UploadCopy.owner_setUrl (url : Text) (now : DateTime) (copy : UploadCopy) :
    (copy.setUrl url now).owner = copy.owner := by cases copy <;> rfl

@[simp] theorem UploadCopy.url?_setUrl (url : Text) (now : DateTime) (copy : UploadCopy) :
    (copy.setUrl url now).url? = some url := by cases copy <;> rfl

end Saving

namespace UploadPhase

def pending (ext : String) : UploadPhase → List String
  | load => Image.others ext
  | siblings _ => Image.others ext
  | delete _ other rest => other :: rest
  | _ => []

def removed (ext : String) (phase : UploadPhase) : List String :=
  (Image.others ext).filter fun other => other ∉ phase.pending ext

def Wf (storage : LocalFileStorage) (owner : ImageOwner) (ext : String) (db : Db) :
    UploadPhase → Prop
  | load => True
  | siblings _ => True
  | delete copy other rest =>
    copy.owner = owner ∧ owner.HasRow db ∧ other :: rest <:+ Image.others ext
  | put copy => copy.owner = owner ∧ owner.HasRow db
  | save copy => copy.owner = owner ∧ owner.HasRow db ∧
      ∃ now, copy.url? = some (Image.url storage (owner.key ext) now)
  | siblingsAfter _ => True

@[simp] theorem pending_removing (ext : String) (copy : UploadCopy) (exts : List String) :
    (removing copy exts).pending ext = exts := by cases exts <;> rfl

theorem removed_none {ext : String} {phase : UploadPhase}
    (h : phase.pending ext = Image.others ext) : phase.removed ext = [] := by
  rw [List.eq_nil_iff_forall_not_mem]
  intro other hother
  rw [removed, List.mem_filter, h] at hother
  simp [hother.1] at hother

def Early (ext : String) (phase : UploadPhase) : Prop :=
  (∃ copy, phase = removing copy (Image.others ext)) ∨ ∃ market, phase = siblings market

theorem Early.removed {ext : String} {phase : UploadPhase} (h : phase.Early ext) :
    phase.removed ext = [] := by
  obtain ⟨copy, rfl⟩ | ⟨market, rfl⟩ := h
  · exact removed_none (pending_removing ext copy _)
  · exact removed_none rfl

theorem removing_wf {storage : LocalFileStorage} {owner : ImageOwner} {ext : String} {db : Db}
    {copy : UploadCopy} {exts : List String} (howner : copy.owner = owner)
    (hrow : owner.HasRow db) (hexts : exts <:+ Image.others ext) :
    (removing copy exts).Wf storage owner ext db := by
  cases exts with
  | nil => exact ⟨howner, hrow⟩
  | cons other rest => exact ⟨howner, hrow, hexts⟩

theorem mem_removed {ext other : String} {phase : UploadPhase} :
    other ∈ phase.removed ext ↔ other ∈ Image.others ext ∧ other ∉ phase.pending ext := by
  simp [removed]

theorem mem_removed_delete {ext other e : String} {rest : List String} {copy : UploadCopy}
    (h : other :: rest <:+ Image.others ext) :
    e ∈ (removing copy rest).removed ext ↔
      e = other ∨ e ∈ (delete copy other rest).removed ext := by
  have hmem : other ∈ Image.others ext := h.subset List.mem_cons_self
  have hnd : other ∉ rest := (List.nodup_cons.mp (h.sublist.nodup (Image.others_nodup ext))).1
  rw [mem_removed, mem_removed, pending_removing]
  change _ ↔ e = other ∨ e ∈ Image.others ext ∧ e ∉ other :: rest
  by_cases he : e = other
  · simp [he, hmem, hnd]
  · simp [he]

end UploadPhase

namespace UploadRequest
variable {storage : LocalFileStorage} {request : UploadRequest} {ext : String} {env : UploadEnv}
  {db db' : Db} {files files' : Files} {phase phase' : UploadPhase} {copy : UploadCopy}
  {next : UploadNext}

theorem advance_delete {other : String} {rest : List String} (hext : other ∈ Image.extensions)
    (h : request.advance storage ext env db files (.delete copy other rest) = (db', files', next)) :
    db' = db ∧ next = .goto (.removing copy rest) ∧
      ∀ key, storage.Has files' key ↔ key ≠ request.owner.key other ∧ storage.Has files key := by
  obtain ⟨path, hpath⟩ := request.owner.key_resolves storage hext
  have hdelete : storage.delete files (request.owner.key other) =
      .ok (files.filter fun file => file.path ≠ path) := by
    simp only [LocalFileStorage.delete, hpath]
  simp only [advance, hdelete, Prod.mk.injEq] at h
  obtain ⟨rfl, rfl, rfl⟩ := h
  exact ⟨rfl, rfl, fun key => LocalFileStorage.has_delete hdelete⟩

theorem put_ok (storage : LocalFileStorage) (request : UploadRequest) (files : Files)
    (bytes : List UInt8) (hext : ext ∈ Image.extensions) :
    ∃ files', storage.put files (request.owner.key ext) bytes = .ok files' := by
  obtain ⟨path, hpath⟩ := request.owner.key_resolves storage hext
  exact ⟨_, by simp only [LocalFileStorage.put, hpath]; rfl⟩

theorem advance_put (hext : ext ∈ Image.extensions)
    (h : request.advance storage ext env db files (.put copy) = (db', files', next)) :
    db' = db ∧ next = .goto (.save
        (copy.setUrl (Image.url storage (request.owner.key ext) env.now) env.now)) ∧
      ∀ key, storage.Has files' key ↔ key = request.owner.key ext ∨ storage.Has files key := by
  obtain ⟨files₁, hput⟩ := put_ok storage request files request.bytes hext
  simp only [advance, hput, Prod.mk.injEq] at h
  obtain ⟨rfl, rfl, rfl⟩ := h
  exact ⟨rfl, rfl, fun key => LocalFileStorage.has_put hput⟩

theorem findUser_id {id : UserId} {user : User} (h : env.findUser db id = some user) :
    user.id = id := by
  rw [UploadEnv.findUser, Option.or_eq_some_iff] at h
  rcases h with h | ⟨-, h⟩
  · simpa using (Option.filter_eq_some_iff.mp h).2
  · exact Table.find?_key h

theorem onLoaded_wf (h : request.onLoaded env db ext = .goto phase) :
    phase.Wf storage request.owner ext db := by
  cases request with
  | avatar userId contentType bytes =>
    simp only [onLoaded] at h
    split at h
    · simp at h
    · rename_i user huser
      cases h
      have hid := findUser_id huser
      exact UploadPhase.removing_wf (by simp [UploadCopy.owner, UploadRequest.owner, hid]) trivial
        List.suffix_rfl
  | marketThumbnail actor marketId contentType bytes =>
    simp only [onLoaded] at h
    split at h
    · simp at h
    · rename_i market hmarket
      cases h
      have hid : market.id = marketId := Table.find?_key hmarket
      refine UploadPhase.removing_wf (by simp [UploadCopy.owner, UploadRequest.owner, hid]) ?_
        List.suffix_rfl
      simp [ImageOwner.HasRow, UploadRequest.owner, hmarket]
  | outcomeThumbnail actor marketId outcomeId contentType bytes =>
    simp only [onLoaded] at h
    split at h
    · simp at h
    · cases h
      trivial

theorem onLoaded_early (h : request.onLoaded env db ext = .goto phase) : phase.Early ext := by
  cases request <;> simp only [onLoaded] at h <;> split at h <;> cases h
  · exact .inl ⟨_, rfl⟩
  · exact .inl ⟨_, rfl⟩
  · exact .inr ⟨_, rfl⟩

theorem onLoaded_reply {answer : Except ApplicationError UploadReply}
    (h : request.onLoaded env db ext = .reply answer) : ∃ e, answer = .error e := by
  cases request <;> simp only [onLoaded] at h <;> split at h <;> cases h <;> exact ⟨_, rfl⟩

theorem onSiblings_wf {market : Market}
    (h : request.onSiblings market (db.outcomesFor market.id) ext = .goto phase) :
    phase.Wf storage request.owner ext db := by
  cases request with
  | avatar userId contentType bytes =>
    cases h
    trivial
  | marketThumbnail actor marketId contentType bytes =>
    cases h
    trivial
  | outcomeThumbnail actor marketId outcomeId contentType bytes =>
    simp only [onSiblings] at h
    split at h
    · simp at h
    · rename_i outcome houtcome
      cases h
      have hid : outcome.id = outcomeId := by simpa using List.find?_some houtcome
      have hrow : outcome ∈ db.outcomes.rows :=
        List.mem_of_mem_filter (List.mem_of_find?_eq_some houtcome)
      have hfind : db.outcomeById outcomeId = some outcome :=
        Table.find?_eq_some.mpr ⟨hrow, hid⟩
      refine UploadPhase.removing_wf (by simp [UploadCopy.owner, UploadRequest.owner, hid]) ?_
        List.suffix_rfl
      simp [ImageOwner.HasRow, UploadRequest.owner, hfind]

theorem onSiblings_early {market : Market} {outcomes : List Outcome}
    (h : request.onSiblings market outcomes ext = .goto phase) : phase.Early ext := by
  cases request with
  | avatar userId contentType bytes =>
    cases h
    exact .inr ⟨_, rfl⟩
  | marketThumbnail actor marketId contentType bytes =>
    cases h
    exact .inr ⟨_, rfl⟩
  | outcomeThumbnail actor marketId outcomeId contentType bytes =>
    simp only [onSiblings] at h
    split at h <;> cases h
    exact .inl ⟨_, rfl⟩

theorem onSiblings_reply {market : Market} {outcomes : List Outcome}
    {answer : Except ApplicationError UploadReply}
    (h : request.onSiblings market outcomes ext = .reply answer) : ∃ e, answer = .error e := by
  cases request with
  | outcomeThumbnail actor marketId outcomeId contentType bytes =>
    simp only [onSiblings] at h
    split at h <;> cases h
    exact ⟨_, rfl⟩
  | _ => cases h

theorem advance_wf (hext : ext ∈ Image.extensions)
    (hwf : phase.Wf storage request.owner ext db)
    (h : request.advance storage ext env db files phase = (db', files', .goto phase')) :
    phase'.Wf storage request.owner ext db' := by
  cases phase with
  | load =>
    simp only [advance, Prod.mk.injEq] at h
    obtain ⟨rfl, rfl, hnext⟩ := h
    exact onLoaded_wf hnext
  | siblings market =>
    simp only [advance, Prod.mk.injEq] at h
    obtain ⟨rfl, rfl, hnext⟩ := h
    exact onSiblings_wf hnext
  | delete copy other rest =>
    obtain ⟨howner, hrow, hsuffix⟩ := hwf
    have hother := (Image.mem_others.mp (hsuffix.subset List.mem_cons_self)).1
    obtain ⟨rfl, hnext, -⟩ := advance_delete hother h
    cases hnext
    exact UploadPhase.removing_wf howner hrow ((List.suffix_cons _ _).trans hsuffix)
  | put copy =>
    obtain ⟨howner, hrow⟩ := hwf
    obtain ⟨rfl, hnext, -⟩ := advance_put hext h
    cases hnext
    exact ⟨by simp [howner], hrow, env.now, by simp⟩
  | save copy =>
    simp only [advance] at h
    split at h
    · simp at h
    · cases copy <;> simp [UploadCopy.onSaved] at h
      obtain ⟨-, -, rfl⟩ := h
      trivial
  | siblingsAfter market => simp [advance] at h

end UploadRequest

end Betsphere
