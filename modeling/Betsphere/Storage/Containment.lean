import Betsphere.Storage.ImageKeys
set_option autoImplicit false

namespace Betsphere

/-- `std::io::Error`: whether its kind is `NotFound`, and its text. -/
structure DiskError where
  notFound : Bool
  text : String

def DiskError.toStorage (e : DiskError) : StoragePortError :=
  .internal ("file storage io error: " ++ e.text)

/-- The calls of `tokio::fs`. Each may fail, and change what is on the disk either way. -/
structure Disk (State : Type) where
  createDirAll : List UnixPath.Component → State → Except DiskError Unit × State
  write : List UnixPath.Component → List UInt8 → State → Except DiskError Unit × State
  read : List UnixPath.Component → State → Except DiskError (List UInt8) × State
  removeFile : List UnixPath.Component → State → Except DiskError Unit × State

structure DiskStorage where
  root : Text
  publicBase : Text

namespace DiskStorage
open UnixPath
open LocalFileStorage (validSegment)

def resolve (storage : DiskStorage) (key : Text) : Except StoragePortError Text :=
  if key = [] || !(key.splitOn '/').all validSegment then .error .invalidKey
  else .ok (join storage.root key)

variable {State : Type}

def createParent (disk : Disk State) (path : List Component) (s : State) :
    Except DiskError Unit × State :=
  match parent? path with
  | none => (.ok (), s)
  | some parent => disk.createDirAll parent s

def put (storage : DiskStorage) (disk : Disk State) (key : Text) (bytes : List UInt8)
    (s : State) : Except StoragePortError Unit × State :=
  match storage.resolve key with
  | .error e => (.error e, s)
  | .ok path =>
    match createParent disk (components path) s with
    | (.error e, s) => (.error e.toStorage, s)
    | (.ok (), s) =>
      match disk.write (components path) bytes s with
      | (.error e, s) => (.error e.toStorage, s)
      | (.ok (), s) => (.ok (), s)

def get (storage : DiskStorage) (disk : Disk State) (key : Text) (s : State) :
    Except StoragePortError (Option StoredFile) × State :=
  match storage.resolve key with
  | .error _ => (.ok none, s)
  | .ok path =>
    match disk.read (components path) s with
    | (.ok bytes, s) =>
      (.ok (some ⟨LocalFileStorage.contentTypeFor ((components path).map Component.text),
        bytes⟩), s)
    | (.error e, s) => if e.notFound then (.ok none, s) else (.error e.toStorage, s)

def delete (storage : DiskStorage) (disk : Disk State) (key : Text) (s : State) :
    Except StoragePortError Unit × State :=
  match storage.resolve key with
  | .error e => (.error e, s)
  | .ok path =>
    match disk.removeFile (components path) s with
    | (.ok (), s) => (.ok (), s)
    | (.error e, s) => if e.notFound then (.ok (), s) else (.error e.toStorage, s)

/-- The storage that names files by the components of their paths. -/
def byComponents (storage : DiskStorage) : LocalFileStorage :=
  ⟨(components storage.root).map Component.text, storage.publicBase⟩

def filesDisk : Disk Files where
  createDirAll _ files := (.ok (), files)
  write path bytes files := (.ok (), files.upsert ⟨path.map Component.text, bytes⟩)
  read path files :=
    match files.find? (path.map Component.text) with
    | none => (.error ⟨true, "No such file or directory (os error 2)"⟩, files)
    | some file => (.ok file.bytes, files)
  removeFile path files :=
    match files.find? (path.map Component.text) with
    | none => (.error ⟨true, "No such file or directory (os error 2)"⟩, files)
    | some _ => (.ok (), files.filter fun file => file.path ≠ path.map Component.text)

section Keys
variable {storage : DiskStorage} {key path s : Text} {e : StoragePortError}

theorem resolve_eq_ok : storage.resolve key = .ok path ↔
    key ≠ [] ∧ (∀ s ∈ key.splitOn '/', validSegment s) ∧ path = join storage.root key := by
  simp only [resolve, Bool.or_eq_true, decide_eq_true_eq, Bool.not_eq_true',
    List.all_eq_false]
  split
  · rename_i h
    refine iff_of_false (by simp) ?_
    rintro ⟨hne, hall, -⟩
    rcases h with h | ⟨s, hs, hinvalid⟩
    · exact hne h
    · exact hinvalid (hall s hs)
  · rename_i h
    push Not at h
    simp only [Except.ok.injEq]
    exact ⟨fun hpath => ⟨h.1, h.2, hpath.symm⟩, fun hpath => hpath.2.2.symm⟩

theorem resolve_error (h : storage.resolve key = .error e) : e = .invalidKey := by
  unfold resolve at h
  split at h
  · cases h
    rfl
  · cases h

theorem valid_ne (h : validSegment s) : s ≠ [] ∧ s ≠ ['.'] ∧ s ≠ ['.', '.'] := by
  simp only [validSegment, Bool.and_eq_true, decide_eq_true_eq] at h
  obtain ⟨⟨hne, hdot⟩, -⟩ := h
  refine ⟨hne, ?_, ?_⟩
  · rintro rfl
    exact hdot rfl
  · rintro rfl
    exact hdot rfl

theorem component?_of_valid (h : validSegment s) : component? s = some (.normal s) := by
  obtain ⟨hne, hcur, hparent⟩ := valid_ne h
  rw [component?, if_neg (by simp [hne, hcur]), if_neg hparent]

theorem isKeyChar_of_valid (h : validSegment s) {c : Char} (hc : c ∈ s) :
    LocalFileStorage.isKeyChar c := by
  simp only [validSegment, Bool.and_eq_true] at h
  exact List.all_eq_true.mp h.2 c hc

theorem head?_ne_slash (h : ∀ s ∈ key.splitOn '/', validSegment s) :
    key.head? ≠ some '/' := by
  cases key with
  | nil => simp
  | cons c rest =>
    intro hslash
    have hc : c = '/' := by simpa using hslash
    have hsplit := List.splitOn_append_cons_self (a := '/') [] rest
    have hmem : [] ∈ (c :: rest).splitOn '/' := by
      rw [hc, ← List.nil_append ('/' :: rest), hsplit]
      simp
    exact absurd (h _ hmem) (by decide)

theorem components_resolve (h : storage.resolve key = .ok path) :
    components path = components storage.root ++ (key.splitOn '/').map .normal := by
  obtain ⟨-, hvalid, rfl⟩ := resolve_eq_ok.mp h
  have hdot : (key.splitOn '/').head? ≠ some ['.'] := by
    intro hhead
    exact absurd (hvalid _ (List.mem_of_mem_head? hhead)) (by decide)
  have hnames : (key.splitOn '/').filterMap component? = (key.splitOn '/').map .normal := by
    rw [← List.filterMap_eq_map]
    exact List.filterMap_congr fun s hs => component?_of_valid (hvalid s hs)
  rw [components_join (head?_ne_slash hvalid) hdot, hnames]

theorem resolve_injective {key' path' : Text} (h : storage.resolve key = .ok path)
    (h' : storage.resolve key' = .ok path') (hpath : components path = components path') :
    key = key' := by
  rw [components_resolve h, components_resolve h'] at hpath
  have hinj : Function.Injective Component.normal := fun _ _ => Component.normal.inj
  exact splitOn_injective (hinj.list_map (List.append_cancel_left hpath))

end Keys

section ByComponents
variable {storage : DiskStorage} {key path : Text} {e : StoragePortError}

theorem resolve_byComponents_ok (h : storage.resolve key = .ok path) :
    storage.byComponents.resolve key = .ok ((components path).map Component.text) := by
  obtain ⟨hne, hvalid, -⟩ := resolve_eq_ok.mp h
  have hall : (key.splitOn '/').all validSegment := List.all_eq_true.mpr hvalid
  have htext : ((key.splitOn '/').map Component.normal).map Component.text =
      key.splitOn '/' := by
    rw [List.map_map]
    exact List.map_id _
  rw [components_resolve h, List.map_append, htext]
  simp [LocalFileStorage.resolve, hne, hall, byComponents]

theorem resolve_byComponents_error (h : storage.resolve key = .error e) :
    storage.byComponents.resolve key = .error e := by
  unfold resolve at h
  unfold LocalFileStorage.resolve
  split at h
  · rename_i hinvalid
    rw [if_pos hinvalid]
    cases h
    rfl
  · cases h

theorem put_filesDisk (storage : DiskStorage) (key : Text) (bytes : List UInt8) (files : Files) :
    storage.put filesDisk key bytes files =
      match storage.byComponents.put files key bytes with
      | .error e => (.error e, files)
      | .ok files' => (.ok (), files') := by
  unfold put LocalFileStorage.put
  cases h : storage.resolve key with
  | error e => rw [resolve_byComponents_error h]
  | ok path =>
    rw [resolve_byComponents_ok h]
    have hparent : createParent filesDisk (components path) files = (.ok (), files) := by
      unfold createParent
      cases parent? (components path) <;> rfl
    simp only [hparent]
    rfl

theorem get_filesDisk (storage : DiskStorage) (key : Text) (files : Files) :
    storage.get filesDisk key files = (.ok (storage.byComponents.get files key), files) := by
  unfold get LocalFileStorage.get
  cases h : storage.resolve key with
  | error e => rw [resolve_byComponents_error h]
  | ok path =>
    rw [resolve_byComponents_ok h]
    cases hfile : files.find? ((components path).map Component.text) with
    | none => simp [filesDisk, hfile]
    | some file => simp [filesDisk, hfile]

theorem delete_filesDisk (storage : DiskStorage) (key : Text) (files : Files) :
    storage.delete filesDisk key files =
      match storage.byComponents.delete files key with
      | .error e => (.error e, files)
      | .ok files' => (.ok (), files') := by
  unfold delete LocalFileStorage.delete
  cases h : storage.resolve key with
  | error e => rw [resolve_byComponents_error h]
  | ok path =>
    rw [resolve_byComponents_ok h]
    cases hfile : files.find? ((components path).map Component.text) with
    | none =>
      have hkept : (files.filter fun file => file.path ≠ (components path).map Component.text) =
          files := by
        refine Table.ext (List.filter_eq_self.mpr fun file hmem => ?_)
        simpa using Table.find?_eq_none.mp hfile file hmem
      simp only [filesDisk, hfile, hkept]
      rfl
    | some file => simp [filesDisk, hfile]

end ByComponents

/-- A key that is let through leads to a file of its own below the root, one that is not
touches no file, and the keys of images are let through. -/
theorem keys_stay_below_root (storage : DiskStorage) (key : Text) :
    (∀ path, storage.resolve key = .ok path →
      (∃ names : List Text, names ≠ [] ∧
        components path = components storage.root ++ names.map .normal ∧
        ∀ name ∈ names, name ≠ [] ∧ name ≠ ['.'] ∧ name ≠ ['.', '.'] ∧
          '/' ∉ name ∧ '\\' ∉ name) ∧
      (components storage.root <+: components path ∧
        components storage.root ≠ components path) ∧
      ∀ key' path', storage.resolve key' = .ok path' → key ≠ key' →
        components path ≠ components path') ∧
    (∀ e, storage.resolve key = .error e →
      ∀ (State : Type) (disk : Disk State) (s : State) (bytes : List UInt8),
        storage.put disk key bytes s = (.error .invalidKey, s) ∧
        storage.delete disk key s = (.error .invalidKey, s) ∧
        storage.get disk key s = (.ok none, s)) ∧
    ∀ (owner : ImageOwner) (ext : String), ext ∈ Image.extensions →
      ∃ path, storage.resolve (owner.key ext) = .ok path := by
  refine ⟨fun path h => ⟨?_, ?_, ?_⟩, ?_, ?_⟩
  · obtain ⟨-, hvalid, -⟩ := resolve_eq_ok.mp h
    refine ⟨_, List.splitOn_ne_nil '/' key, components_resolve h, fun name hname => ?_⟩
    obtain ⟨hne, hcur, hparent⟩ := valid_ne (hvalid name hname)
    refine ⟨hne, hcur, hparent, fun hslash => ?_, fun hslash => ?_⟩
    · exact absurd (isKeyChar_of_valid (hvalid name hname) hslash) (by decide)
    · exact absurd (isKeyChar_of_valid (hvalid name hname) hslash) (by decide)
  · rw [components_resolve h]
    refine ⟨List.prefix_append _ _, fun hroot => List.splitOn_ne_nil '/' key ?_⟩
    exact List.map_eq_nil_iff.mp (List.self_eq_append_right.mp hroot)
  · intro key' path' h' hne hpath
    exact hne (resolve_injective h h' hpath)
  · intro e h State disk s bytes
    obtain rfl := resolve_error h
    refine ⟨?_, ?_, ?_⟩
    · simp [put, h]
    · simp [delete, h]
    · simp [get, h]
  · intro owner ext hext
    cases h : storage.resolve (owner.key ext) with
    | ok path => exact ⟨path, rfl⟩
    | error e =>
      obtain ⟨path, hpath⟩ := ImageOwner.key_resolves storage.byComponents owner hext
      cases (resolve_byComponents_error h).symm.trans hpath

end DiskStorage

end Betsphere
