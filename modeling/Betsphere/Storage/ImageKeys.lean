import Betsphere.Application.Profile
import Betsphere.Postgres.Database
import Betsphere.Storage.LocalFiles
set_option autoImplicit false

namespace Betsphere

namespace Image

/-- The key of an image, `{folder}/{owner}.{ext}`. -/
def keyFor (folder owner ext : String) : Text := (folder ++ "/" ++ owner ++ "." ++ ext).toList

def extensions : List String := allowedTypes.map Prod.snd

def others (ext : String) : List String :=
  (allowedTypes.filter fun entry => entry.2 ≠ ext).map Prod.snd

def timestamp (now : DateTime) : Int := now / 1000000

/-- The URL `image::store` answers; `v` changes it when the key stays the same. -/
def url (storage : LocalFileStorage) (key : Text) (now : DateTime) : Text :=
  storage.publicUrl key ++ '?' :: ("v=" ++ toString (timestamp now)).toList

theorem mem_others {ext other : String} :
    other ∈ others ext ↔ other ∈ extensions ∧ other ≠ ext := by
  simp only [others, extensions, List.mem_map, List.mem_filter, decide_eq_true_eq]
  constructor
  · rintro ⟨entry, ⟨hmem, hne⟩, rfl⟩
    exact ⟨⟨entry, hmem, rfl⟩, hne⟩
  · rintro ⟨⟨entry, hmem, rfl⟩, hne⟩
    exact ⟨entry, ⟨hmem, hne⟩, rfl⟩

theorem others_nodup (ext : String) : (others ext).Nodup := by
  have hexts : (allowedTypes.map Prod.snd).Nodup := by decide
  exact (List.filter_sublist.map Prod.snd).nodup hexts

theorem validate_ok {kind contentType ext : String} {bytes : List UInt8} {maxBytes : Nat}
    (h : validate kind contentType bytes maxBytes = .ok ext) : ext ∈ extensions := by
  unfold validate at h
  split at h
  · simp at h
  · rename_i entry hentry
    split_ifs at h
    cases h
    exact List.mem_map.mpr ⟨_, List.mem_of_find?_eq_some hentry, rfl⟩

end Image

inductive ImageOwner where
  | user (id : UserId)
  | market (id : MarketId)
  | outcome (id : OutcomeId)
  deriving DecidableEq

namespace ImageOwner

def folder : ImageOwner → String
  | .user _ => "avatars"
  | .market _ => "thumbnails"
  | .outcome _ => "outcome-thumbnails"

def uuid : ImageOwner → Uuid
  | .user id => id.uuid
  | .market id => id.uuid
  | .outcome id => id.uuid

def key (owner : ImageOwner) (ext : String) : Text :=
  Image.keyFor owner.folder (displayUuid owner.uuid) ext

def storedUrl (owner : ImageOwner) (db : Db) : Option Text :=
  match owner with
  | .user id => (db.userById id).bind User.avatarUrl
  | .market id => (db.marketById id).bind Market.thumbnailUrl
  | .outcome id => (db.outcomeById id).bind Outcome.thumbnailUrl

end ImageOwner

theorem mem_hexDigits {width n : Nat} {c : Char} (h : c ∈ hexDigits width n) :
    ∃ k < 16, c = Nat.digitChar k := by
  induction width generalizing n with
  | zero => simp [hexDigits] at h
  | succ width ih =>
    rw [hexDigits, List.mem_append, List.mem_singleton] at h
    rcases h with h | rfl
    · exact ih h
    · exact ⟨n % 16, Nat.mod_lt n (by decide), rfl⟩

theorem mem_displayUuid {id : Uuid} {c : Char} (h : c ∈ (displayUuid id).toList) :
    c = '-' ∨ ∃ k < 16, c = Nat.digitChar k := by
  have hdigits : ∀ d, d ∈ hexDigits 32 id.toNat → ∃ k < 16, d = Nat.digitChar k :=
    fun d => mem_hexDigits
  simp only [displayUuid, String.toList_ofList, List.mem_append, List.mem_singleton] at h
  grind [List.mem_of_mem_take, List.mem_of_mem_drop]

theorem isKeyChar_displayUuid {id : Uuid} {c : Char} (h : c ∈ (displayUuid id).toList) :
    LocalFileStorage.isKeyChar c ∧ c ≠ '.' := by
  have hdigit : ∀ k < 16, LocalFileStorage.isKeyChar (Nat.digitChar k) ∧
      Nat.digitChar k ≠ '.' := by decide
  rcases mem_displayUuid h with rfl | ⟨k, hk, rfl⟩
  · decide
  · exact hdigit k hk

theorem displayUuid_ne_nil (id : Uuid) : (displayUuid id).toList ≠ [] := by
  simp [displayUuid]

namespace ImageOwner
variable {storage : LocalFileStorage} {owner : ImageOwner} {ext ext' : String}

theorem key_eq (owner : ImageOwner) (ext : String) :
    owner.key ext = owner.folder.toList ++
      '/' :: ((displayUuid owner.uuid).toList ++ '.' :: ext.toList) := by
  simp [key, Image.keyFor]

theorem key_injective (h : owner.key ext = owner.key ext') : ext = ext' := by
  simp only [key_eq, List.append_cancel_left_eq, List.cons.injEq, true_and] at h
  exact String.toList_injective h

def fileName (owner : ImageOwner) (ext : String) : Text :=
  (displayUuid owner.uuid).toList ++ '.' :: ext.toList

theorem validSegment_folder (owner : ImageOwner) :
    LocalFileStorage.validSegment owner.folder.toList ∧ '/' ∉ owner.folder.toList := by
  cases owner <;> simp only [folder] <;> decide

theorem isKeyChar_fileName (hext : ext ∈ Image.extensions) {c : Char}
    (h : c ∈ owner.fileName ext) : LocalFileStorage.isKeyChar c := by
  have hexts : ∀ e ∈ Image.extensions, e.toList.all LocalFileStorage.isKeyChar := by decide
  rw [fileName, List.mem_append, List.mem_cons] at h
  rcases h with h | rfl | h
  · exact (isKeyChar_displayUuid h).1
  · rfl
  · exact List.all_eq_true.mp (hexts ext hext) c h

theorem validSegment_fileName (owner : ImageOwner) (hext : ext ∈ Image.extensions) :
    LocalFileStorage.validSegment (owner.fileName ext) := by
  have hall : (owner.fileName ext).all LocalFileStorage.isKeyChar :=
    List.all_eq_true.mpr fun c hc => isKeyChar_fileName hext hc
  cases huuid : (displayUuid owner.uuid).toList with
  | nil => exact absurd huuid (displayUuid_ne_nil owner.uuid)
  | cons c rest =>
    have hdot : c ≠ '.' := (isKeyChar_displayUuid (huuid ▸ List.mem_cons_self)).2
    have hcons : owner.fileName ext = c :: (rest ++ '.' :: ext.toList) := by
      rw [fileName, huuid, List.cons_append]
    rw [hcons] at hall ⊢
    simp [LocalFileStorage.validSegment, hdot, hall]

theorem slash_not_mem_fileName (hext : ext ∈ Image.extensions) : '/' ∉ owner.fileName ext :=
  fun h => absurd (isKeyChar_fileName hext h) (by decide)

theorem key_resolves (storage : LocalFileStorage) (owner : ImageOwner)
    (hext : ext ∈ Image.extensions) : ∃ path, storage.resolve (owner.key ext) = .ok path := by
  have hfolder := validSegment_folder owner
  have hsplit : (owner.key ext).splitOn '/' = [owner.folder.toList, owner.fileName ext] := by
    rw [key_eq, List.splitOn_append_cons_self_of_not_mem hfolder.2, ← fileName,
      List.splitOn_eq_singleton (slash_not_mem_fileName hext)]
  have hne : owner.key ext ≠ [] := by simp [key_eq]
  have hvalid : ((owner.key ext).splitOn '/').all LocalFileStorage.validSegment := by
    simp [hsplit, hfolder.1, validSegment_fileName owner hext]
  exact ⟨_, by simp only [LocalFileStorage.resolve, hne, hvalid]; rfl⟩

theorem query_not_mem_key (hext : ext ∈ Image.extensions) : ∀ c ∈ owner.key ext, c ≠ '?' := by
  rintro c hc rfl
  rw [key_eq, List.mem_append, List.mem_cons] at hc
  rcases hc with h | h | h
  · cases owner <;> exact absurd h (by simp only [folder]; decide)
  · exact absurd h (by decide)
  · exact absurd (isKeyChar_fileName hext h) (by decide)

/-- The URL an upload saves asks for the key it stored the image under. -/
theorem requestedKey_url (storage : LocalFileStorage) (owner : ImageOwner) (now : DateTime)
    (hext : ext ∈ Image.extensions) :
    storage.requestedKey (Image.url storage (owner.key ext) now) = some (owner.key ext) :=
  storage.requestedKey_publicUrl (query_not_mem_key hext)

end ImageOwner

end Betsphere
