import Betsphere.Lib.Transition
import Betsphere.Storage.ImageKeys
set_option autoImplicit false

namespace Betsphere

namespace Image

/-- `image::store`: the variants with another extension go, the new file is written. -/
def store (storage : LocalFileStorage) (folder owner ext : String) (bytes : List UInt8)
    (now : DateTime) (files : Files) : Except ApplicationError (Files × Text) :=
  match (others ext).foldlM (fun files other =>
      storage.delete files (keyFor folder owner other)) files with
  | .error e => .error (.ofStoragePort e)
  | .ok files =>
    match storage.put files (keyFor folder owner ext) bytes with
    | .error e => .error (.ofStoragePort e)
    | .ok files => .ok (files, url storage (keyFor folder owner ext) now)

end Image

structure ImageUpload where
  ext : String
  bytes : List UInt8
  now : DateTime
  allowed : ext ∈ Image.extensions

def ImageUpload.url (storage : LocalFileStorage) (owner : ImageOwner) (u : ImageUpload) : Text :=
  Image.url storage (owner.key u.ext) u.now

structure CachedImage where
  url : Text
  bytes : List UInt8
  fetchedAt : DateTime

/-- `public, max-age=86400`, in microseconds. -/
def imageMaxAge : Int := 86400 * 1000000

/-- An owner's images as a client sees them: the files, what was published so far, each URL
with the image it was given for, and the client's cache. -/
structure Viewer where
  files : Files
  published : List (Text × List UInt8)
  cached : Table CachedImage.url

inductive ViewerAct where
  | upload (u : ImageUpload)
  | view (url : Text) (now : DateTime)

namespace ViewerAct

def now : ViewerAct → DateTime
  | upload u => u.now
  | view _ now => now

def upload? : ViewerAct → Option ImageUpload
  | upload u => some u
  | view .. => none

end ViewerAct

namespace Viewer

def start (files : Files) : Viewer := ⟨files, [], .empty⟩

def served (storage : LocalFileStorage) (files : Files) (url : Text) : Option (List UInt8) :=
  ((storage.requestedKey url).bind (storage.get files)).map StoredFile.bytes

/-- The client shows a copy while it is fresh, and otherwise what it is served, which it keeps. -/
def view (storage : LocalFileStorage) (w : Viewer) (url : Text) (now : DateTime) :
    Viewer × Option (List UInt8) :=
  match (w.cached.find? url).filter fun copy => now - copy.fetchedAt < imageMaxAge with
  | some copy => (w, some copy.bytes)
  | none =>
    match served storage w.files url with
    | none => (w, none)
    | some bytes => (⟨w.files, w.published, w.cached.upsert ⟨url, bytes, now⟩⟩, some bytes)

def step (storage : LocalFileStorage) (owner : ImageOwner) (w : Viewer) :
    ViewerAct → Option Viewer
  | .upload u =>
    match Image.store storage owner.folder (displayUuid owner.uuid) u.ext u.bytes u.now w.files with
    | .error _ => none
    | .ok (files, url) => some ⟨files, w.published ++ [(url, u.bytes)], w.cached⟩
  | .view url now =>
    if url ∈ w.published.map Prod.fst then some (w.view storage url now).1 else none

def Current (storage : LocalFileStorage) (w : Viewer) (now : DateTime) : Prop :=
  ∀ url bytes, w.published.getLast? = some (url, bytes) → (w.view storage url now).2 = some bytes

end Viewer

/-- No two uploads with different bytes have the same extension and the same second. -/
def SecondsApart (us : List ImageUpload) : Prop :=
  us.Pairwise fun a b => a.ext = b.ext → Image.timestamp a.now = Image.timestamp b.now →
    a.bytes = b.bytes

/-- However a client looks in between the uploads, it is never shown a superseded image
under the owner's current URL. -/
def NeverSuperseded (storage : LocalFileStorage) (owner : ImageOwner) (files : Files)
    (us : List ImageUpload) : Prop :=
  ∀ acts now w, acts.filterMap ViewerAct.upload? <+: us →
    (acts.map ViewerAct.now ++ [now]).Pairwise (· ≤ ·) →
    Transition.run (Viewer.step storage owner) (.start files) acts = some w →
    w.Current storage now

section Digits

theorem repr_injective {m n : Nat} (h : Nat.repr m = Nat.repr n) : m = n := by
  have hdigits : Nat.toDigits 10 m = Nat.toDigits 10 n := by
    rw [← Nat.toList_repr, ← Nat.toList_repr, h]
  calc
    m = Nat.ofDigitChars 10 (Nat.toDigits 10 m) 0 :=
      (Nat.ofDigitChars_toDigits (by decide) (by decide)).symm
    _ = n := by rw [hdigits, Nat.ofDigitChars_toDigits (by decide) (by decide)]

theorem repr_ne_minus {m n : Nat} : Nat.repr m ≠ "-" ++ Nat.repr n := by
  intro h
  have hmem : '-' ∈ Nat.toDigits 10 m := by
    rw [← Nat.toList_repr, h]
    simp
  exact absurd (Nat.isDigit_of_mem_toDigits (by decide) (by decide) hmem) (by decide)

theorem toString_injective {a b : Int} (h : toString a = toString b) : a = b := by
  cases a with
  | ofNat m =>
    cases b with
    | ofNat n => exact congrArg Int.ofNat (repr_injective h)
    | negSucc n => exact (repr_ne_minus h).elim
  | negSucc m =>
    cases b with
    | ofNat n => exact (repr_ne_minus h.symm).elim
    | negSucc n =>
      have hrepr : "-" ++ Nat.repr (m + 1) = "-" ++ Nat.repr (n + 1) := h
      have hsucc := repr_injective ((String.append_right_inj _).mp hrepr)
      rw [Nat.succ.inj hsucc]

end Digits

section Urls
variable {storage : LocalFileStorage} {owner : ImageOwner} {u v : ImageUpload}

theorem url_eq_iff : u.url storage owner = v.url storage owner ↔
    u.ext = v.ext ∧ Image.timestamp u.now = Image.timestamp v.now := by
  constructor
  · intro h
    have hkeys : some (owner.key u.ext) = some (owner.key v.ext) := by
      rw [← ImageOwner.requestedKey_url storage owner u.now u.allowed,
        ← ImageOwner.requestedKey_url storage owner v.now v.allowed]
      exact congrArg storage.requestedKey h
    have hkey := Option.some.inj hkeys
    refine ⟨ImageOwner.key_injective hkey, toString_injective ?_⟩
    unfold ImageUpload.url Image.url at h
    rw [hkey, List.append_cancel_left_eq, List.cons.injEq] at h
    exact (String.append_right_inj _).mp (String.toList_injective h.2)
  · rintro ⟨hext, hsecond⟩
    simp [ImageUpload.url, Image.url, hext, hsecond]

theorem secondsApart_iff {us : List ImageUpload} : SecondsApart us ↔
    us.Pairwise fun a b => a.bytes ≠ b.bytes → a.url storage owner ≠ b.url storage owner := by
  unfold SecondsApart
  constructor
  · refine fun h => h.imp fun hsame hne hurl => ?_
    obtain ⟨hext, hsecond⟩ := url_eq_iff.mp hurl
    exact hne (hsame hext hsecond)
  · refine fun h => h.imp fun hapart hext hsecond => not_not.mp fun hne => ?_
    exact hapart hne (url_eq_iff.mpr ⟨hext, hsecond⟩)

end Urls

section Store
variable {storage : LocalFileStorage} {owner : ImageOwner} {files files' : Files}

theorem has_deleteAll (storage : LocalFileStorage) (owner : ImageOwner) (files : Files)
    (exts : List String) (hexts : ∀ e ∈ exts, e ∈ Image.extensions) :
    ∃ files', exts.foldlM (fun files other =>
        storage.delete files (Image.keyFor owner.folder (displayUuid owner.uuid) other)) files =
          .ok files' ∧
      ∀ key, storage.Has files' key ↔ (∀ e ∈ exts, key ≠ owner.key e) ∧ storage.Has files key := by
  induction exts generalizing files with
  | nil => exact ⟨files, rfl, by simp⟩
  | cons e exts ih =>
    rw [List.forall_mem_cons] at hexts
    obtain ⟨path, hpath⟩ := owner.key_resolves storage hexts.1
    have hdelete : storage.delete files (owner.key e) =
        .ok (files.filter fun file => file.path ≠ path) := by
      simp only [LocalFileStorage.delete, hpath]
    obtain ⟨files', hfold, hhas⟩ := ih (files.filter fun file => file.path ≠ path) hexts.2
    refine ⟨files', ?_, fun key => ?_⟩
    · rw [List.foldlM_cons]
      change (storage.delete files (owner.key e) >>= _) = _
      rw [hdelete]
      exact hfold
    · rw [hhas, LocalFileStorage.has_delete hdelete, List.forall_mem_cons]
      tauto

theorem served_put {u : ImageUpload}
    (h : storage.put files (owner.key u.ext) u.bytes = .ok files') :
    Viewer.served storage files' (u.url storage owner) = some u.bytes := by
  obtain ⟨path, hpath⟩ := owner.key_resolves storage u.allowed
  simp only [LocalFileStorage.put, hpath, Except.ok.injEq] at h
  have hfile : files'.find? path = some ⟨path, u.bytes⟩ := by
    rw [← h, Table.find?_upsert]
    simp
  rw [Viewer.served, ImageUpload.url, ImageOwner.requestedKey_url storage owner u.now u.allowed,
    Option.bind_some, LocalFileStorage.get, hpath]
  simp [hfile]

theorem served_none {u : ImageUpload} (h : ¬storage.Has files (owner.key u.ext)) :
    Viewer.served storage files (u.url storage owner) = none := by
  rw [LocalFileStorage.has_get, Bool.not_eq_true, Option.isSome_eq_false_iff,
    Option.isNone_iff_eq_none] at h
  rw [Viewer.served, ImageUpload.url, ImageOwner.requestedKey_url storage owner u.now u.allowed,
    Option.bind_some, h]
  rfl

theorem store_spec (storage : LocalFileStorage) (owner : ImageOwner) (files : Files)
    (u : ImageUpload) :
    ∃ files', Image.store storage owner.folder (displayUuid owner.uuid) u.ext u.bytes u.now files =
        .ok (files', u.url storage owner) ∧
      Viewer.served storage files' (u.url storage owner) = some u.bytes ∧
      ∀ v : ImageUpload, v.ext ≠ u.ext →
        Viewer.served storage files' (v.url storage owner) = none := by
  obtain ⟨files₁, hdeletes, hhas⟩ := has_deleteAll storage owner files (Image.others u.ext)
    fun e he => (Image.mem_others.mp he).1
  obtain ⟨path, hpath⟩ := owner.key_resolves storage u.allowed
  have hput : storage.put files₁ (owner.key u.ext) u.bytes =
      .ok (files₁.upsert ⟨path, u.bytes⟩) := by
    simp only [LocalFileStorage.put, hpath]
  refine ⟨files₁.upsert ⟨path, u.bytes⟩, ?_, served_put hput, fun v hne => served_none ?_⟩
  · simp only [Image.store, hdeletes]
    change (match storage.put files₁ (owner.key u.ext) u.bytes with
      | .error e => _
      | .ok files => _) = _
    rw [hput]
    rfl
  · rw [LocalFileStorage.has_put hput, hhas]
    rintro (hkey | ⟨hothers, -⟩)
    · exact hne (ImageOwner.key_injective hkey)
    · exact hothers v.ext (Image.mem_others.mpr ⟨v.allowed, hne⟩) rfl

end Store

structure Viewer.Follows (storage : LocalFileStorage) (owner : ImageOwner)
    (past : List ImageUpload) (w : Viewer) : Prop where
  published : w.published = past.map fun u => (u.url storage owner, u.bytes)
  latest : ∀ u ∈ past.getLast?, Viewer.served storage w.files (u.url storage owner) = some u.bytes ∧
    ∀ v : ImageUpload, v.ext ≠ u.ext → Viewer.served storage w.files (v.url storage owner) = none

/-- A copy in the cache is right for every upload of `us` that its URL is given to, unless
that upload's second is over. -/
def Viewer.Harmless (storage : LocalFileStorage) (owner : ImageOwner) (us past : List ImageUpload)
    (w : Viewer) : Prop :=
  ∀ copy ∈ w.cached.rows, ∀ u ∈ us, u.url storage owner = copy.url →
    copy.bytes = u.bytes ∨ ∃ v ∈ past.getLast?, Image.timestamp u.now < Image.timestamp v.now

section Views
variable {storage : LocalFileStorage} {owner : ImageOwner} {us past : List ImageUpload}
  {w w' : Viewer} {u v : ImageUpload} {url : Text} {now : DateTime}

theorem timestamp_mono {t t' : DateTime} (h : t ≤ t') : Image.timestamp t ≤ Image.timestamp t' :=
  Int.ediv_le_ediv (by decide) h

theorem now_le_last (hclock : past.Pairwise fun a b => a.now ≤ b.now)
    (hlast : v ∈ past.getLast?) (hu : u ∈ past) : u.now ≤ v.now := by
  obtain ⟨front, rfl⟩ := List.getLast?_eq_some_iff.mp hlast
  rcases List.mem_append.mp hu with hu | hu
  · exact (List.pairwise_append.mp hclock).2.2 u hu v List.mem_cons_self
  · rw [List.mem_singleton.mp hu]

theorem served_congr {files : Files} (hext : u.ext = v.ext) :
    Viewer.served storage files (u.url storage owner) =
      Viewer.served storage files (v.url storage owner) := by
  rw [Viewer.served, Viewer.served, ImageUpload.url, ImageUpload.url,
    ImageOwner.requestedKey_url storage owner u.now u.allowed,
    ImageOwner.requestedKey_url storage owner v.now v.allowed, hext]

theorem Viewer.Follows.served_published {bytes : List UInt8} (h : w.Follows storage owner past)
    (hurl : url ∈ w.published.map Prod.fst) (hserved : served storage w.files url = some bytes) :
    ∃ u ∈ past, u.url storage owner = url ∧
      ∃ v ∈ past.getLast?, u.ext = v.ext ∧ bytes = v.bytes := by
  rw [h.published, List.map_map, List.mem_map] at hurl
  obtain ⟨u, hu, rfl⟩ := hurl
  obtain ⟨v, hv⟩ : ∃ v, v ∈ past.getLast? :=
    ⟨_, List.getLast?_eq_some_getLast (List.ne_nil_of_mem hu)⟩
  obtain ⟨hlatest, hothers⟩ := h.latest v hv
  have hext : u.ext = v.ext := by
    by_contra hne
    cases (hothers u hne).symm.trans hserved
  refine ⟨u, hu, rfl, v, hv, hext, ?_⟩
  exact Option.some.inj (hserved.symm.trans ((served_congr hext).trans hlatest))

theorem step_upload (h : w.Follows storage owner past) (u : ImageUpload) :
    ∃ w', Viewer.step storage owner w (.upload u) = some w' ∧
      w'.Follows storage owner (past ++ [u]) ∧ w'.cached = w.cached := by
  obtain ⟨files', hstore, hserved⟩ := store_spec storage owner w.files u
  refine ⟨⟨files', w.published ++ [(u.url storage owner, u.bytes)], w.cached⟩, ?_, ⟨?_, ?_⟩, rfl⟩
  · simp only [Viewer.step, hstore]
  · simp [h.published]
  · intro v hv
    rw [List.getLast?_concat, Option.mem_some_iff] at hv
    exact hv ▸ hserved

theorem view_spec (storage : LocalFileStorage) (w : Viewer) (url : Text) (now : DateTime) :
    (w.view storage url now).1.files = w.files ∧
    (w.view storage url now).1.published = w.published ∧
    ((w.view storage url now).1.cached = w.cached ∨ ∃ bytes,
      Viewer.served storage w.files url = some bytes ∧
        (w.view storage url now).1.cached = w.cached.upsert ⟨url, bytes, now⟩) := by
  unfold Viewer.view
  split
  · exact ⟨rfl, rfl, .inl rfl⟩
  · split
    · exact ⟨rfl, rfl, .inl rfl⟩
    · rename_i bytes hserved
      exact ⟨rfl, rfl, .inr ⟨bytes, hserved, rfl⟩⟩

theorem view_follows (h : w.Follows storage owner past) (url : Text) (now : DateTime) :
    (w.view storage url now).1.Follows storage owner past := by
  obtain ⟨hfiles, hpublished, -⟩ := view_spec storage w url now
  exact ⟨hpublished.trans h.published, hfiles ▸ h.latest⟩

theorem bytes_eq_of_apart (h : SecondsApart us) (hu : u ∈ us) (hv : v ∈ us)
    (hext : u.ext = v.ext) (hsecond : Image.timestamp u.now = Image.timestamp v.now) :
    u.bytes = v.bytes := by
  have hsymm : Std.Symm fun a b : ImageUpload =>
      a.ext = b.ext → Image.timestamp a.now = Image.timestamp b.now → a.bytes = b.bytes :=
    ⟨fun a b hab hext hsecond => (hab hext.symm hsecond.symm).symm⟩
  exact List.Pairwise.forall_of_forall (fun _ _ _ _ => rfl) h hu hv hext hsecond

/-- What a look puts in the cache is harmless when no second has two images of one type. -/
theorem view_harmless (hclock : us.Pairwise fun a b => a.now ≤ b.now) (hapart : SecondsApart us)
    (hpast : past <+: us) (hfollows : w.Follows storage owner past)
    (hharmless : w.Harmless storage owner us past) (hurl : url ∈ w.published.map Prod.fst) :
    (w.view storage url now).1.Harmless storage owner us past := by
  obtain ⟨-, -, hcached | ⟨bytes, hserved, hcached⟩⟩ := view_spec storage w url now
  · intro copy hcopy
    rw [hcached] at hcopy
    exact hharmless copy hcopy
  · intro copy hcopy m hm hmurl
    rw [hcached, Table.mem_upsert] at hcopy
    obtain rfl | ⟨hcopy, -⟩ := hcopy
    · obtain ⟨u, hu, hsame, v, hv, hext, rfl⟩ := hfollows.served_published hurl hserved
      obtain ⟨hmext, hsecond⟩ := url_eq_iff.mp (hmurl.trans hsame.symm)
      have hle : Image.timestamp m.now ≤ Image.timestamp v.now :=
        hsecond ▸ timestamp_mono (now_le_last (hclock.sublist hpast.sublist) hv hu)
      rcases hle.lt_or_eq with hlt | heq
      · exact .inr ⟨v, hv, hlt⟩
      · have hv := hpast.subset (List.mem_of_mem_getLast? hv)
        exact .inl (bytes_eq_of_apart hapart hv hm (hmext.trans hext).symm heq.symm)
    · exact hharmless copy hcopy m hm hmurl

theorem upload_harmless (hclock : (past ++ [u]).Pairwise fun a b => a.now ≤ b.now)
    (hcached : w'.cached = w.cached) (h : w.Harmless storage owner us past) :
    w'.Harmless storage owner us (past ++ [u]) := by
  intro copy hcopy m hm hurl
  rcases h copy (hcached ▸ hcopy) m hm hurl with hsame | ⟨v, hv, hlt⟩
  · exact .inl hsame
  · refine .inr ⟨u, by simp, hlt.trans_le (timestamp_mono ?_)⟩
    exact (List.pairwise_append.mp hclock).2.2 v (List.mem_of_mem_getLast? hv) u
      List.mem_cons_self

theorem view_current (hpast : past <+: us) (hfollows : w.Follows storage owner past)
    (hharmless : w.Harmless storage owner us past) : w.Current storage now := by
  intro url bytes hlast
  rw [hfollows.published, List.getLast?_map, Option.map_eq_some_iff] at hlast
  obtain ⟨u, hu, hpub⟩ := hlast
  cases hpub
  unfold Viewer.view
  split
  · rename_i copy hcopy
    have hfound := (Option.filter_eq_some_iff.mp hcopy).1
    obtain ⟨hmem, hurl⟩ := Table.find?_eq_some.mp hfound
    rcases hharmless copy hmem u (hpast.subset (List.mem_of_mem_getLast? hu)) hurl.symm with
      hsame | ⟨v, hv, hlt⟩
    · rw [hsame]
    · cases hv.symm.trans hu
      exact absurd hlt (lt_irrefl _)
  · rw [(hfollows.latest u hu).1]

theorem run_sound {acts : List ViewerAct} (hclock : us.Pairwise fun a b => a.now ≤ b.now)
    (hapart : SecondsApart us) (hpast : past ++ acts.filterMap ViewerAct.upload? <+: us)
    (hfollows : w.Follows storage owner past) (hharmless : w.Harmless storage owner us past)
    (hrun : Transition.run (Viewer.step storage owner) w acts = some w') :
    w'.Follows storage owner (past ++ acts.filterMap ViewerAct.upload?) ∧
      w'.Harmless storage owner us (past ++ acts.filterMap ViewerAct.upload?) := by
  induction acts generalizing past w with
  | nil =>
    cases hrun
    simpa using ⟨hfollows, hharmless⟩
  | cons act acts ih =>
    obtain ⟨w₁, hstep, hrest⟩ := Transition.run_cons_some hrun
    cases act with
    | upload u =>
      have hsplit : past ++ (ViewerAct.upload u :: acts).filterMap ViewerAct.upload? =
          past ++ [u] ++ acts.filterMap ViewerAct.upload? := by
        simp [ViewerAct.upload?]
      rw [hsplit] at hpast ⊢
      obtain ⟨w₂, hstep₂, hfollows₂, hcached⟩ := step_upload hfollows u
      cases hstep.symm.trans hstep₂
      have hprefix := (List.prefix_append _ _).trans hpast
      exact ih hpast hfollows₂
        (upload_harmless (hclock.sublist hprefix.sublist) hcached hharmless) hrest
    | view url now =>
      have hsame : past ++ (ViewerAct.view url now :: acts).filterMap ViewerAct.upload? =
          past ++ acts.filterMap ViewerAct.upload? := by
        rw [List.filterMap_cons]
        rfl
      rw [hsame] at hpast ⊢
      simp only [Viewer.step] at hstep
      split_ifs at hstep with hurl
      cases hstep
      have hprefix := (List.prefix_append _ _).trans hpast
      exact ih hpast (view_follows hfollows url now)
        (view_harmless hclock hapart hprefix hfollows hharmless hurl) hrest

end Views

section Runs
variable {storage : LocalFileStorage} {owner : ImageOwner} {files : Files}
  {us vs past : List ImageUpload} {w : Viewer}

theorem start_follows (storage : LocalFileStorage) (owner : ImageOwner) (files : Files) :
    (Viewer.start files).Follows storage owner [] := ⟨rfl, by simp⟩

theorem run_uploads (h : w.Follows storage owner past) (vs : List ImageUpload) :
    ∃ w', Transition.run (Viewer.step storage owner) w (vs.map .upload) = some w' ∧
      w'.Follows storage owner (past ++ vs) ∧ w'.cached = w.cached := by
  induction vs generalizing past w with
  | nil => exact ⟨w, rfl, by simpa using h, rfl⟩
  | cons u vs ih =>
    obtain ⟨w₁, hstep, hfollows, hcached⟩ := step_upload h u
    obtain ⟨w₂, hrun, hfollows₂, hcached₂⟩ := ih hfollows
    refine ⟨w₂, ?_, by simpa using hfollows₂, hcached₂.trans hcached⟩
    rw [List.map_cons, Transition.run, hstep]
    exact hrun

theorem neverSuperseded_of_apart (hclock : us.Pairwise fun a b => a.now ≤ b.now)
    (hapart : SecondsApart us) : NeverSuperseded storage owner files us := by
  intro acts now w hpast _ hrun
  have hharmless : (Viewer.start files).Harmless storage owner us [] := by
    intro copy hcopy
    simp [Viewer.start] at hcopy
  obtain ⟨hfollows, hharmless⟩ := run_sound hclock hapart (by simpa using hpast)
    (start_follows storage owner files) hharmless hrun
  exact view_current (by simpa using hpast) hfollows hharmless

theorem exists_split_of_not_pairwise {α : Type} {R : α → α → Prop} {l : List α}
    (h : ¬l.Pairwise R) : ∃ l₁ a l₂ b l₃, l = l₁ ++ a :: (l₂ ++ b :: l₃) ∧ ¬R a b := by
  induction l with
  | nil => exact absurd List.Pairwise.nil h
  | cons a l ih =>
    by_cases hall : ∀ b ∈ l, R a b
    · obtain ⟨l₁, c, l₂, b, l₃, rfl, hcb⟩ := ih fun hl => h (List.pairwise_cons.mpr ⟨hall, hl⟩)
      exact ⟨a :: l₁, c, l₂, b, l₃, rfl, hcb⟩
    · push Not at hall
      obtain ⟨b, hb, hab⟩ := hall
      obtain ⟨l₂, l₃, rfl⟩ := List.append_of_mem hb
      exact ⟨[], a, l₂, b, l₃, rfl, hab⟩

theorem pairwise_twice {l m : List Int} {x : Int} (h : (l ++ x :: m).Pairwise (· ≤ ·)) :
    (l ++ x :: x :: m).Pairwise (· ≤ ·) := by
  rw [List.pairwise_append] at h ⊢
  obtain ⟨hl, hm, hlm⟩ := h
  refine ⟨hl, List.pairwise_cons.mpr ⟨fun y hy => ?_, hm⟩, fun y hy z hz => ?_⟩
  · rcases List.mem_cons.mp hy with rfl | hy
    · exact le_rfl
    · exact (List.pairwise_cons.mp hm).1 y hy
  · rcases List.mem_cons.mp hz with rfl | hz
    · exact hlm y hy z List.mem_cons_self
    · exact hlm y hy z hz

theorem fresh_of_same_second {t t' : Int} (h : Image.timestamp t = Image.timestamp t') :
    t' - t < imageMaxAge := by
  unfold Image.timestamp at h
  unfold imageMaxAge
  omega

theorem view_fresh {copy : CachedImage} {url : Text} {now : DateTime}
    (hfound : w.cached.find? url = some copy) (hfresh : now - copy.fetchedAt < imageMaxAge) :
    (w.view storage url now).2 = some copy.bytes := by
  unfold Viewer.view
  rw [hfound, Option.filter_some_pos (by simpa using hfresh)]

/-- A client that looks after the first of two images of one second is shown it again after
the second. -/
theorem not_neverSuperseded (past vs us : List ImageUpload) {a b : ImageUpload}
    (hext : a.ext = b.ext)
    (hsecond : Image.timestamp a.now = Image.timestamp b.now) (hbytes : a.bytes ≠ b.bytes)
    (hclock : (past ++ a :: (vs ++ b :: us)).Pairwise fun a b => a.now ≤ b.now) :
    ¬NeverSuperseded storage owner files (past ++ a :: (vs ++ b :: us)) := by
  intro hnever
  have hurl : a.url storage owner = b.url storage owner := url_eq_iff.mpr ⟨hext, hsecond⟩
  obtain ⟨w₁, hrun₁, hfollows₁, hcached₁⟩ :=
    run_uploads (start_follows storage owner files) (past ++ [a])
  -- The look between the two caches the first image under their common URL.
  have hpublished : a.url storage owner ∈ w₁.published.map Prod.fst := by
    simp [hfollows₁.published]
  have hserved : Viewer.served storage w₁.files (a.url storage owner) = some a.bytes :=
    (hfollows₁.latest a (by simp)).1
  have hempty : w₁.cached.find? (a.url storage owner) = none := by
    rw [hcached₁]
    rfl
  have hview : (w₁.view storage (a.url storage owner) a.now).1.cached =
      w₁.cached.upsert ⟨a.url storage owner, a.bytes, a.now⟩ := by
    simp [Viewer.view, hempty, hserved]
  obtain ⟨w₃, hrun₃, hfollows₃, hcached₃⟩ :=
    run_uploads (view_follows hfollows₁ (a.url storage owner) a.now) (vs ++ [b])
  let acts : List ViewerAct := (past ++ [a]).map .upload ++
    .view (a.url storage owner) a.now :: (vs ++ [b]).map .upload
  have hrun : Transition.run (Viewer.step storage owner) (.start files) acts = some w₃ := by
    refine Transition.run_append_some hrun₁ ?_
    rw [Transition.run, Viewer.step, if_pos hpublished]
    exact hrun₃
  have hprefix : acts.filterMap ViewerAct.upload? <+: past ++ a :: (vs ++ b :: us) := by
    have huploads : ∀ us : List ImageUpload,
        (us.map ViewerAct.upload).filterMap ViewerAct.upload? = us := by
      intro us
      rw [List.filterMap_map]
      exact List.filterMap_some
    have hsplit : acts.filterMap ViewerAct.upload? = past ++ [a] ++ (vs ++ [b]) := by
      rw [List.filterMap_append, List.filterMap_cons, huploads]
      exact congrArg (past ++ [a] ++ ·) (huploads (vs ++ [b]))
    exact ⟨us, by simp [hsplit]⟩
  have htimes : (acts.map ViewerAct.now ++ [b.now]).Pairwise (· ≤ ·) := by
    have hnow : ∀ us : List ImageUpload,
        (us.map ViewerAct.upload).map ViewerAct.now = us.map ImageUpload.now := by
      intro us
      rw [List.map_map]
      rfl
    have hsorted : (past.map ImageUpload.now ++ a.now ::
        (vs.map ImageUpload.now ++ [b.now])).Pairwise (· ≤ ·) := by
      have hall := List.pairwise_map.mpr hclock
      refine hall.sublist ?_
      simp only [List.map_append, List.map_cons]
      exact List.Sublist.append_left (List.Sublist.cons_cons _ (List.Sublist.append_left
        (List.Sublist.cons_cons _ (List.nil_sublist _)) _)) _
    have htwice := pairwise_twice hsorted
    rw [← List.cons_append, ← List.cons_append, ← List.append_assoc] at htwice
    have htwice := pairwise_twice htwice
    rw [List.map_append, List.map_cons, hnow, hnow]
    simpa [ViewerAct.now] using htwice
  have hlast : w₃.published.getLast? = some (b.url storage owner, b.bytes) := by
    rw [hfollows₃.published, List.getLast?_map, ← List.append_assoc, List.getLast?_concat]
    rfl
  have hshown := hnever acts b.now w₃ hprefix htimes hrun _ _ hlast
  have hfresh := fresh_of_same_second hsecond
  have hfound : w₃.cached.find? (b.url storage owner) =
      some ⟨a.url storage owner, a.bytes, a.now⟩ := by
    rw [hcached₃, hview, Table.find?_upsert, if_pos hurl]
  rw [view_fresh hfound hfresh] at hshown
  exact hbytes (Option.some.inj hshown)

end Runs

/-- Different images get different URLs, and no client is shown a superseded image, just
when uploads of one type with different bytes are a second apart. -/
theorem image_urls_keep_meaning_iff (storage : LocalFileStorage) (owner : ImageOwner)
    (files : Files) (us : List ImageUpload) (hclock : us.Pairwise fun a b => a.now ≤ b.now) :
    (∃ w, Transition.run (Viewer.step storage owner) (.start files) (us.map .upload) = some w ∧
      w.published.map Prod.snd = us.map ImageUpload.bytes ∧
      ((w.published.Pairwise fun a b => a.2 ≠ b.2 → a.1 ≠ b.1) ↔ SecondsApart us)) ∧
    (NeverSuperseded storage owner files us ↔ SecondsApart us) := by
  constructor
  · obtain ⟨w, hrun, hfollows, -⟩ := run_uploads (start_follows storage owner files) us
    refine ⟨w, hrun, ?_, ?_⟩
    · rw [hfollows.published, List.map_map]
      rfl
    · rw [hfollows.published, List.pairwise_map]
      exact secondsApart_iff.symm
  · constructor
    · intro hnever
      by_contra hclose
      obtain ⟨past, a, vs, b, rest, rfl, hab⟩ := exists_split_of_not_pairwise hclose
      push Not at hab
      exact not_neverSuperseded past vs rest hab.1 hab.2.1 hab.2.2 hclock hnever
    · exact neverSuperseded_of_apart hclock

namespace Viewer.Sample

def storage : LocalFileStorage := ⟨["files".toList], "/api/files".toList⟩

def secondApart : List ImageUpload :=
  [⟨"png", [1], 0, by decide⟩, ⟨"png", [2], 1000000, by decide⟩]

def withinSecond : List ImageUpload :=
  [⟨"png", [1], 0, by decide⟩, ⟨"png", [2], 400000, by decide⟩]

end Viewer.Sample

theorem image_urls_keep_meaning_second_apart :
    NeverSuperseded Viewer.Sample.storage (.user ⟨4⟩) .empty Viewer.Sample.secondApart := by
  have hclock : Viewer.Sample.secondApart.Pairwise fun a b => a.now ≤ b.now := by
    simp [Viewer.Sample.secondApart]
  have hapart : SecondsApart Viewer.Sample.secondApart := by
    simp [SecondsApart, Viewer.Sample.secondApart, Image.timestamp]
  exact (image_urls_keep_meaning_iff Viewer.Sample.storage (.user ⟨4⟩) .empty
    Viewer.Sample.secondApart hclock).2.mpr hapart

/-- Two images within a second get one URL, and a client may go on showing the first. -/
theorem images_of_one_second_share_url :
    (Viewer.Sample.withinSecond.map (ImageUpload.url Viewer.Sample.storage (.user ⟨4⟩))).map
        String.ofList =
      ["/api/files/avatars/00000000-0000-0000-0000-000000000004.png?v=0",
        "/api/files/avatars/00000000-0000-0000-0000-000000000004.png?v=0"] ∧
    ¬NeverSuperseded Viewer.Sample.storage (.user ⟨4⟩) .empty Viewer.Sample.withinSecond := by
  refine ⟨by decide +kernel, ?_⟩
  have hclock : Viewer.Sample.withinSecond.Pairwise fun a b => a.now ≤ b.now := by
    simp [Viewer.Sample.withinSecond]
  exact not_neverSuperseded [] [] [] rfl rfl (by decide) hclock

end Betsphere
