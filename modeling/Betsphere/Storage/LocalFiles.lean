import Betsphere.Domain.Values
import Betsphere.Lib.Table
import Betsphere.Lib.UnixPath
set_option autoImplicit false

namespace Betsphere

inductive StoragePortError where
  | invalidKey
  | internal (message : String)
  deriving DecidableEq, Repr

def StoragePortError.message : StoragePortError → String
  | .invalidKey => "invalid storage key"
  | .internal message => message

def ApplicationError.ofStoragePort (e : StoragePortError) : ApplicationError :=
  .internal e.message

structure StoredFile where
  contentType : String
  bytes : List UInt8
  deriving DecidableEq

structure FileEntry where
  path : List Text
  bytes : List UInt8
  deriving DecidableEq

abbrev Files := Table FileEntry.path

structure LocalFileStorage where
  root : List Text
  publicBase : Text

namespace LocalFileStorage

def isKeyChar (c : Char) : Bool :=
  ('a' ≤ c && c ≤ 'z') || ('A' ≤ c && c ≤ 'Z') || ('0' ≤ c && c ≤ '9') ||
    c = '.' || c = '_' || c = '-'

def validSegment (s : Text) : Bool := s ≠ [] && s.head? ≠ some '.' && s.all isKeyChar

def resolve (storage : LocalFileStorage) (key : Text) : Except StoragePortError (List Text) :=
  if key = [] || !(key.splitOn '/').all validSegment then .error .invalidKey
  else .ok (storage.root ++ key.splitOn '/')

def extension (path : List Text) : Option Text :=
  match path.getLast? with
  | none => none
  | some name => if name.contains '.' then some (name.rtakeWhile (· ≠ '.')) else none

def contentTypeFor (path : List Text) : String :=
  match (extension path).map String.ofList with
  | some "png" => "image/png"
  | some "jpg" => "image/jpeg"
  | some "jpeg" => "image/jpeg"
  | some "webp" => "image/webp"
  | some "gif" => "image/gif"
  | some "svg" => "image/svg+xml"
  | _ => "application/octet-stream"

def put (storage : LocalFileStorage) (files : Files) (key : Text) (bytes : List UInt8) :
    Except StoragePortError Files :=
  match storage.resolve key with
  | .error e => .error e
  | .ok path => .ok (files.upsert ⟨path, bytes⟩)

def get (storage : LocalFileStorage) (files : Files) (key : Text) : Option StoredFile :=
  match storage.resolve key with
  | .error _ => none
  | .ok path => (files.find? path).map fun file => ⟨contentTypeFor path, file.bytes⟩

/-- A missing file is as good as a deleted one. -/
def delete (storage : LocalFileStorage) (files : Files) (key : Text) :
    Except StoragePortError Files :=
  match storage.resolve key with
  | .error e => .error e
  | .ok path => .ok (files.filter fun file => file.path ≠ path)

def publicUrl (storage : LocalFileStorage) (key : Text) : Text :=
  storage.publicBase.rdropWhile (· = '/') ++ '/' :: key

/-- The key a client's request for `url` asks for; the query is not part of it. -/
def requestedKey (storage : LocalFileStorage) (url : Text) : Option Text :=
  let base := storage.publicBase.rdropWhile (· = '/') ++ ['/']
  if base <+: url then some ((url.drop base.length).takeWhile (· ≠ '?')) else none

def serves (storage : LocalFileStorage) (files : Files) (url : Text) : Bool :=
  (storage.requestedKey url).any fun key => (storage.get files key).isSome

section Keys
variable {storage : LocalFileStorage} {key key' : Text} {path : List Text} {files : Files}

theorem resolve_ok (h : storage.resolve key = .ok path) :
    path = storage.root ++ key.splitOn '/' := by
  unfold resolve at h
  split at h
  · simp at h
  · cases h
    rfl

theorem resolve_injective (h : storage.resolve key = .ok path)
    (h' : storage.resolve key' = .ok path) : key = key' :=
  UnixPath.splitOn_injective
    (List.append_cancel_left ((resolve_ok h).symm.trans (resolve_ok h')))

theorem requestedKey_publicUrl (storage : LocalFileStorage) {query : Text}
    (hkey : ∀ c ∈ key, c ≠ '?') :
    storage.requestedKey (storage.publicUrl key ++ '?' :: query) = some key := by
  let base := storage.publicBase.rdropWhile (· = '/') ++ ['/']
  have hurl : storage.publicUrl key ++ '?' :: query = base ++ (key ++ '?' :: query) := by
    simp [publicUrl, base]
  have hprefix : base <+: base ++ (key ++ '?' :: query) := List.prefix_append _ _
  have hkeep : (key ++ '?' :: query).takeWhile (· ≠ '?') = key := by
    rw [List.takeWhile_append_of_pos (by simpa using hkey)]
    simp
  rw [hurl]
  change (if base <+: base ++ (key ++ '?' :: query) then
    some (((base ++ (key ++ '?' :: query)).drop base.length).takeWhile (· ≠ '?')) else none) = _
  rw [if_pos hprefix, List.drop_left, hkeep]

def Has (storage : LocalFileStorage) (files : Files) (key : Text) : Prop :=
  ∃ path, storage.resolve key = .ok path ∧ (files.find? path).isSome

theorem has_get : storage.Has files key ↔ (storage.get files key).isSome := by
  unfold Has LocalFileStorage.get
  cases h : storage.resolve key with
  | error e => simp
  | ok path => simp

theorem serves_iff {url : Text} :
    storage.serves files url ↔ ∃ key, storage.requestedKey url = some key ∧
      storage.Has files key := by
  simp only [serves, Option.any_eq_true, has_get]

theorem has_put {files' : Files} {bytes : List UInt8}
    (h : storage.put files key bytes = .ok files') :
    storage.Has files' key' ↔ key' = key ∨ storage.Has files key' := by
  unfold put at h
  cases hr : storage.resolve key with
  | error e => simp [hr] at h
  | ok path =>
    simp only [hr, Except.ok.injEq] at h
    subst h
    constructor
    · rintro ⟨path', hr', hfile⟩
      rw [Table.find?_upsert] at hfile
      split at hfile
      · rename_i hpath
        change path = path' at hpath
        exact .inl (resolve_injective (hpath ▸ hr') hr)
      · exact .inr ⟨path', hr', hfile⟩
    · rintro (rfl | ⟨path', hr', hfile⟩)
      · exact ⟨path, hr, by simp [Table.find?_upsert]⟩
      · refine ⟨path', hr', ?_⟩
        rw [Table.find?_upsert]
        split
        · rfl
        · exact hfile

theorem has_delete {files' : Files} (h : storage.delete files key = .ok files') :
    storage.Has files' key' ↔ key' ≠ key ∧ storage.Has files key' := by
  unfold delete at h
  cases hr : storage.resolve key with
  | error e => simp [hr] at h
  | ok path =>
    simp only [hr, Except.ok.injEq] at h
    subst h
    constructor
    · rintro ⟨path', hr', hfile⟩
      obtain ⟨file, hfile⟩ := Option.isSome_iff_exists.mp hfile
      obtain ⟨hmem, hpath⟩ := Table.find?_eq_some.mp hfile
      obtain ⟨hmem, hkept⟩ := List.mem_filter.mp hmem
      have hne : path' ≠ path := by simpa [hpath] using hkept
      refine ⟨?_, path', hr', ?_⟩
      · rintro rfl
        exact hne (Except.ok.inj (hr'.symm.trans hr))
      · exact Option.isSome_iff_exists.mpr ⟨file, Table.find?_eq_some.mpr ⟨hmem, hpath⟩⟩
    · rintro ⟨hne, path', hr', hfile⟩
      obtain ⟨file, hfile⟩ := Option.isSome_iff_exists.mp hfile
      obtain ⟨hmem, hpath⟩ := Table.find?_eq_some.mp hfile
      have hkept : file.path ≠ path := by
        rintro rfl
        exact hne (resolve_injective hr' (hpath ▸ hr))
      refine ⟨path', hr', Option.isSome_iff_exists.mpr ⟨file, Table.find?_eq_some.mpr ⟨?_, hpath⟩⟩⟩
      exact List.mem_filter.mpr ⟨hmem, by simpa using hkept⟩

end Keys

end LocalFileStorage

end Betsphere
