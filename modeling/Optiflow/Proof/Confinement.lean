import Optiflow.Proof.Isolation

/-!
# Users stay apart, whatever runs at once

When any number of requests, deliveries and uploads run at once, a handler acts on rows that it read some
calls ago.  What makes a row somebody's, and the keys of its objects, never changes under one id, so a
call that knows its ids (`CallMine`) still asks about nothing but what is the user's (`CallMine.asksOwn`)
and leaves what is of others alone (`CallMine.isolated`).
-/

namespace Optiflow

open Interleave Code UploadSvc ApiSvc Workers

/-! ## The property -/

/-- The key of something that a worker makes of the file. -/
def MadeOf (id : UUID) (key : GoString) : Prop := key = thumbnailKey id ∨ hlsPrefix id <+: key

/-- The key is that of an upload of the user, or of something made of a file of the user. -/
def KeyOf (s : Store) (userID : UUID) (key : GoString) : Prop :=
  (∃ id name, key = storageKey userID id name) ∨ ∃ id, FileIDKnown s userID id ∧ MadeOf id key

/-- The database with nobody else's rows. -/
def DB.only (db : DB) (userID : UUID) : DB :=
  { db with
    users := db.users.delete fun r => !ofUser User.id userID r
    folders := db.folders.delete fun r => !ofUser Folder.userID userID r
    files := db.files.delete fun r => !ofUser File.userID userID r
    shares := db.shares.delete fun r => !ofUser Share.userID userID r }

/-- The key of an object that the call asks about, stores, removes or makes a URL for. -/
def BucketStmt.names {α : Type} (key : GoString) : BucketStmt α → Prop
  | .presignedPutURL k _ => k = key
  | .presignedGetURL k _ => k = key
  | .statObject k => k = key
  | .getObject k => k = key
  | .readObject k => k = key
  | .putObject k _ _ _ => k = key
  | .listObjects keyPrefix => keyPrefix <+: key
  | .removeObject k => k = key

/-- What the call asks is the user's: a query is answered as if nobody else had a row, and the bucket is
asked only for objects of the user's files. -/
def AsksOwn (s : Store) (userID : UUID) {α : Type} : Stmt α → Prop
  | .query qy => qy.eval (s.db.only userID) = qy.eval s.db
  | .bucket b => ∀ key, b.names key → KeyOf s userID key
  | _ => True

/-! ## Keys -/

section Keys

variable {s t : Store} {userID userID' id id' : UUID} {key name name' : GoString} {f : File}

theorem MadeOf.ne_storageKey (h : MadeOf id key) : key ≠ storageKey userID id' name := by
  rintro rfl
  obtain h | h := h
  · exact storageKey_ne_thumbnailKey h
  · exact not_hlsPrefix_storageKey h

theorem MadeOf.id_eq (h : MadeOf id key) (h' : MadeOf id' key) : id = id' :=
  Owns.id_eq (Or.inr h) (Or.inr h')

/-- The key of an upload names its user. -/
theorem storageKey_user (h : storageKey userID id name = storageKey userID' id' name') :
    userID = userID' := by
  simp only [storageKey, List.append_assoc] at h
  exact UUID.string_injective (List.append_inj_left (List.append_cancel_left h) (by simp))

/-- **No key is that of two users.** -/
theorem KeyOf.user_eq (h : KeyOf s userID key) (h' : KeyOf s userID' key) : userID = userID' := by
  obtain ⟨id, name, rfl⟩ | ⟨id, hid, hmade⟩ := h
  · obtain ⟨id', name', heq⟩ | ⟨id', -, hmade'⟩ := h'
    · exact storageKey_user heq
    · exact absurd rfl hmade'.ne_storageKey
  · obtain ⟨id', name', rfl⟩ | ⟨id', hid', hmade'⟩ := h'
    · exact absurd rfl hmade.ne_storageKey
    · obtain rfl := hmade.id_eq hmade'
      exact hid.user_eq hid'

theorem KeyOf.mono (hst : Grows s t) : KeyOf s userID key → KeyOf t userID key
  | Or.inl h => Or.inl h
  | Or.inr ⟨id, hid, hmade⟩ => Or.inr ⟨id, hid.mono hst, hmade⟩

end Keys

/-! ## The invariant -/

/-- A file was born with a key under its user, and its thumbnail was made of it. -/
structure Named (s : Store) : Prop where
  original : ∀ b ∈ s.db.files.births, ∃ name, b.storageKey = storageKey b.userID b.id name
  thumbnail : ∀ f ∈ s.db.files, ∀ key, f.thumbnailKey = some key → MadeOf f.id key

/-- A struct for a new file of the user. -/
structure NewOf (userID : UUID) (f : File) : Prop where
  user : f.userID = userID
  original : ∃ name, f.storageKey = storageKey f.userID f.id name
  thumbnail : f.thumbnailKey = none

/-- What an INSERT does to a row does not matter. -/
theorem NewOf.columnDefaults {userID : UUID} {f : File} (h : NewOf userID f) :
    NewOf userID f.columnDefaults := ⟨h.user, h.original, h.thumbnail⟩

/-- What a user's write must know. -/
def WriteMine (userID : UUID) {α : Type} : Write α → Prop
  | .createFile mk => ∀ id, NewOf userID (mk id)
  | .presignVersion u _ mk => u = userID ∧ ∀ id, NewOf userID (mk id)
  | .saveFile f => f.userID = userID ∧ ∀ key, f.thumbnailKey = some key → MadeOf f.id key
  | .restoreVersion u _ _ => u = userID
  | .deleteFile u _ => u = userID
  | .updateFile _ _ => False
  | .createFolder _ u _ => u = userID
  | .saveFolder f => f.userID = userID
  | .deleteFolder u _ => u = userID
  | .incrementDownloads _ => False
  | .createShare _ u _ _ _ => u = userID
  | .deleteShare _ u => u = userID

/-- What a call of a user's request must know. -/
def CallMine (s : Store) (userID : UUID) {α : Type} : Stmt α → Prop
  | .query (.fileByID id) => FileIDKnown s userID id
  | .query qy => qy.isOf userID
  | .write w => WriteMine userID w
  | .bucket b => ∀ key, b.names key → KeyOf s userID key
  | .staging (.create u) => u.user = some userID
  | _ => True

/-- The outline of users. -/
def confinement (deps : Deps) : Outline (services deps) where
  inv s := WellFormed s ∧ Linked s ∧ Named s
  rely := Grows
  pre q _ e s := (q.places = true → ∃ userID, q.user = some userID) ∧
    ∀ userID, q.user = some userID → CallMine s userID e
  post _ _ := True
  cond _ := True

section Steps

variable {deps : Deps} {s s' : Store} {q : Request} {userID : UUID} {α : Type} {e : Stmt α} {o : Oracle} {a : α}
  {f : File} {key : GoString}

/-- The keys of a row are its user's. -/
theorem Named.keyOf (hn : Named s) (h : WellFormed s) (hf : f ∈ s.db.files) (hkey : f.HasKey key) :
    KeyOf s f.userID key := by
  obtain ⟨b, hb, hid⟩ := h.file f hf
  have hknown : FileIDKnown s f.userID f.id :=
    ⟨b, hb, congrArg File.Identity.id hid, congrArg File.Identity.userID hid⟩
  obtain rfl | hkey | hkey := hkey
  · obtain ⟨name, hname⟩ := hn.original b hb
    have huser : b.userID = f.userID := congrArg File.Identity.userID hid
    have hstorage : b.storageKey = f.storageKey := congrArg File.Identity.storageKey hid
    exact Or.inl ⟨b.id, name, by rw [← hstorage, hname, huser]⟩
  · exact Or.inr ⟨f.id, hknown, hn.thumbnail f hf key hkey⟩
  · exact Or.inr ⟨f.id, hknown, Or.inr hkey⟩

/-- What a worker stores as a thumbnail was made of the file. -/
theorem WorkerUpdate.madeOf {worker : Worker} {msg : Message} {id : UUID} {u : FileUpdates}
    (h : WorkerUpdate s worker msg id u) (hkey : u.thumbnailKey = some key) : MadeOf id key := by
  obtain ⟨-, -, rfl, rfl | rfl⟩ := h
  · unfold finishedUpdates at hkey
    cases htype : msg.task.type with
    | imageThumbnail =>
      rw [htype] at hkey
      exact Or.inl (Option.some.inj hkey).symm
    | videoTranscode =>
      rw [htype] at hkey
      exact Or.inr (Option.some.inj hkey ▸ hlsPrefix_posterKey)
  · cases hkey

/-- A request that puts a file somewhere makes its user's calls. -/
theorem callMine_of_places (hl : (confinement deps).pre q e s) (hq : q.places = true) :
    ∃ userID, CallMine s userID e := by
  obtain ⟨userID, huser⟩ := hl.1 hq
  exact ⟨userID, hl.2 userID huser⟩

/-- A row that is written names its own objects. -/
theorem Named.wrote (hn : Named s) (h : WellFormed s) (hw : CallKnown s q e)
    (hl : (confinement deps).pre q e s) (hx : Optiflow.exec o e s = some (a, s')) (hf : Wrote s f e a) :
    (∃ name, f.storageKey = storageKey f.userID f.id name) ∧
      ∀ key, f.thumbnailKey = some key → MadeOf f.id key := by
  have hnew : ∀ {userID : UUID} {g : File}, NewOf userID g →
      (∃ name, g.storageKey = storageKey g.userID g.id name) ∧
        ∀ key, g.thumbnailKey = some key → MadeOf g.id key := fun hg =>
    ⟨hg.original, fun key hkey => by cases hg.thumbnail.symm.trans hkey⟩
  have hkept : ∀ g : File, FileKnown s g → ∃ name, g.storageKey = storageKey g.userID g.id name := by
    rintro g ⟨b, hb, hid⟩
    obtain ⟨name, hname⟩ := hn.original b hb
    simp only [File.identity, File.Identity.mk.injEq] at hid
    obtain ⟨hid, huser, hstorage, -⟩ := hid
    exact ⟨name, by rw [← hstorage, hname, huser, hid]⟩
  cases e with
  | write w =>
    obtain ⟨db', hrun, rfl⟩ := exec_write hx
    cases w with
    | createFile mk =>
      have hplaces : q.places = true := by
        obtain ⟨-, -, ⟨-, userID, body, rfl⟩ | ⟨upload, rfl, -⟩⟩ := hw o.uuid <;> rfl
      obtain ⟨userID, hmine⟩ := callMine_of_places hl hplaces
      obtain ⟨rfl, -⟩ | ⟨-, -, -, rfl, -⟩ := Write.createFile_cases hrun
      · exact hf.elim
      · exact hf.1 ▸ hnew (hmine o.uuid).columnDefaults
    | presignVersion userID root mk =>
      obtain ⟨⟨id, body, rfl⟩, -⟩ := hw
      obtain ⟨userID', -, hmine⟩ := callMine_of_places hl rfl
      obtain ⟨rfl, -⟩ | ⟨-, -, -, rfl, -⟩ := Write.presignVersion_cases hrun
      · exact hf.elim
      · exact hf.1 ▸ hnew (hmine o.uuid).columnDefaults
    | saveFile g =>
      have hplaces : q.places = true := by
        obtain ⟨⟨userID, id, rfl⟩ | ⟨userID, id, body, rfl⟩, -⟩ := hw <;> rfl
      obtain ⟨userID, -, hmine⟩ := callMine_of_places hl hplaces
      obtain ⟨rfl, -⟩ | ⟨rfl, -⟩ := Write.saveFile_cases hrun
      · exact hf.elim
      · have hrow : f = s.db.savedRow g := hf
        obtain hsaved | hsaved := s.db.savedRow_eq g <;> rw [hrow, hsaved] <;>
          exact ⟨hkept g hw.2, hmine⟩
    | updateFile id u =>
      obtain ⟨worker, msg, -, hupdate⟩ := hw
      obtain ⟨rfl, -⟩ | ⟨rfl, -⟩ := Write.updateFile_cases hrun
      · exact hf.elim
      · obtain ⟨g, hg, rfl, rfl⟩ := hf
        refine ⟨hkept g (h.file g hg), fun key hkey => ?_⟩
        obtain hu | ⟨-, hkey⟩ := (Option.orElse_eq_some _ _ _).1 hkey
        · exact hupdate.madeOf hu
        · exact hn.thumbnail g hg key hkey
    | _ => exact hf.elim
  | _ => exact hf.elim

theorem Named.exec (hn : Named s) (h : WellFormed s) (hw : CallKnown s q e)
    (hl : (confinement deps).pre q e s) (hx : Optiflow.exec o e s = some (a, s')) : Named s' := by
  refine ⟨fun b hb => ?_, fun f hf key hkey => ?_⟩
  · obtain hb | hb := birth_cases hx hb
    · exact hn.original b hb
    · exact (hn.wrote h hw hl hx hb).1
  · obtain ⟨g, hg, b, rfl⟩ | hf := file_cases hx hf
    · exact hn.thumbnail g hg key hkey
    · exact (hn.wrote h hw hl hx hf).2 key hkey

theorem Named.of_db_eq (hn : Named s) (hdb : s'.db = s.db) : Named s' :=
  ⟨hdb ▸ hn.original, hdb ▸ hn.thumbnail⟩

/-! ### What is of others -/

/-- A user's write leaves the rows of others alone, also a save of a row that has gone. -/
theorem WriteMine.sameOthers {w : Write α} {a : Except DbError α} {db' : DB} (hl : WriteMine userID w)
    (h : WellFormed s) (hw : WriteKnown s q w) (hrun : w.run o s.issued s.db = some (a, db')) :
    s.db.SameOthers userID db' := by
  cases w with
  | createFile mk =>
    obtain ⟨-, rfl⟩ | ⟨hu, -, -, -, rfl⟩ := Write.createFile_cases hrun
    · exact .refl _ _
    · exact ⟨rfl, .refl _ _, Table.sameOutside_insert hu (ofUser_iff.2 (hl o.uuid).user), .refl _ _⟩
  | presignVersion u root mk =>
    obtain ⟨rfl, hmk⟩ := hl
    obtain ⟨-, rfl⟩ | ⟨hu, -, -, -, rfl⟩ := Write.presignVersion_cases hrun
    · exact .refl _ _
    · refine (DB.sameOthers_supersede root).trans ⟨rfl, .refl _ _, ?_, .refl _ _⟩
      exact Table.sameOutside_insert hu (ofUser_iff.2 (hmk o.uuid).user)
  | saveFile f =>
    obtain ⟨rfl, -⟩ := hl
    obtain ⟨-, rfl⟩ | ⟨-, rfl⟩ := Write.saveFile_cases hrun
    · exact .refl _ _
    · refine ⟨rfl, .refl _ _, Table.sameOutside_save_of (fun x hx hid => ofUser_iff.2 ?_) ?_, .refl _ _⟩
      · have hxf : x.id = f.id := hid.trans (s.db.id_savedRow f)
        exact congrArg File.Identity.userID ((h.file x hx).identity_eq hw.2 hxf)
      · refine ofUser_iff.2 ?_
        obtain hrow | hrow := s.db.savedRow_eq f
        · rw [hrow]
        · rw [hrow]
          rfl
  | restoreVersion u root targetID =>
    obtain rfl : u = userID := hl
    obtain ⟨-, -, b, hb, hid, huser, -⟩ := hw
    exact WriteOwn.sameOthers (w := .restoreVersion u root targetID) ⟨rfl, h.noOther ⟨b, hb, hid, huser⟩⟩
      hrun
  | saveFolder f =>
    obtain rfl : f.userID = userID := hl
    obtain ⟨-, rfl⟩ | ⟨-, rfl⟩ := Write.saveFolder_cases hrun
    · exact .refl _ _
    · refine ⟨rfl, Table.sameOutside_save_of (fun x hx hid => ofUser_iff.2 ?_) (ofUser_iff.2 rfl),
        .refl _ _, .refl _ _⟩
      have hxf : x.id = f.id := hid
      exact h.folder_user hx (hxf ▸ hw.2.1)
  | deleteFile u root => exact WriteOwn.sameOthers (w := .deleteFile u root) hl hrun
  | updateFile id u => exact hl.elim
  | createFolder name u parentID => exact WriteOwn.sameOthers (w := .createFolder name u parentID) hl hrun
  | deleteFolder u folderID => exact WriteOwn.sameOthers (w := .deleteFolder u folderID) hl hrun
  | incrementDownloads id => exact hl.elim
  | createShare fileID u passwordHash expiresAt maxDownloads =>
    exact WriteOwn.sameOthers (w := .createShare fileID u passwordHash expiresAt maxDownloads) hl hrun
  | deleteShare id u => exact WriteOwn.sameOthers (w := .deleteShare id u) hl hrun

/-- What is done to the objects that a call names leaves every other object alone. -/
theorem BucketStmt.object_run {b : BucketStmt α} {now : Time} {bucket : Bucket} (hkey : ¬b.names key) :
    (b.run o now bucket).2.object? key = bucket.object? key := by
  cases b with
  | presignedPutURL k expiry =>
    simp only [BucketStmt.run]
    split <;> rfl
  | putObject k body size contentType =>
    simp only [BucketStmt.run]
    split
    · rfl
    · exact Bucket.object?_put_ne fun heq => hkey heq.symm
  | removeObject k =>
    simp only [BucketStmt.run]
    split
    · rfl
    · exact Bucket.object?_remove_ne fun heq => hkey heq.symm
  | _ => rfl

/-- Whether a call is one to the bucket. -/
def Stmt.isBucket : Stmt α → Bool
  | .bucket _ => true
  | _ => false

theorem exec_bucket (he : e.isBucket = false) (hx : Optiflow.exec o e s = some (a, s')) :
    s'.bucket = s.bucket := by
  cases e with
  | bucket b => cases he
  | write w =>
    obtain ⟨db', -, rfl⟩ := exec_write hx
    rfl
  | newUUID =>
    simp only [Optiflow.exec] at hx
    split at hx
    · cases hx
    · obtain ⟨-, rfl⟩ := Prod.mk.inj (Option.some.inj hx)
      rfl
  | _ =>
    obtain ⟨-, rfl⟩ := Prod.mk.inj (Option.some.inj hx)
    rfl

/-- **A call of a user's request leaves what is of others alone.** -/
theorem CallMine.isolated (hl : CallMine s userID e) (h : WellFormed s) (hn : Named s)
    (hw : CallKnown s q e) (hx : Optiflow.exec o e s = some (a, s')) : Isolated userID s s' := by
  have hdb : s.db.SameOthers userID s'.db := by
    cases e with
    | write w =>
      obtain ⟨db', hrun, rfl⟩ := exec_write hx
      exact WriteMine.sameOthers hl h hw hrun
    | _ =>
      rw [exec_db rfl hx]
      exact .refl _ _
  have hother : ∀ {ρ : Type} {owner : ρ → UUID} {r : ρ}, owner r ≠ userID →
      ofUser owner userID r = false := fun hne => by simpa [ofUser] using hne
  refine ⟨hdb.users, fun f hne => hdb.folders f (hother hne), fun f hne => hdb.files f (hother hne),
    fun sh hne => hdb.shares sh (hother hne), fun f hf hne key hkey => ?_, fun u hu => ?_⟩
  · cases e with
    | bucket b =>
      obtain ⟨-, rfl⟩ := Prod.mk.inj (Option.some.inj hx)
      exact BucketStmt.object_run fun hnames => hne ((hn.keyOf h hf hkey).user_eq (hl key hnames))
    | _ => rw [exec_bucket rfl hx]
  · cases e with
    | staging st =>
      obtain ⟨-, rfl⟩ := Prod.mk.inj (Option.some.inj hx)
      cases st with
      | create upload =>
        rcases List.mem_cons.1 hu with rfl | hu
        · exact Or.inr hl
        · exact Or.inl hu
      | openFile path => exact Or.inl hu
      | removeFile path =>
        simp only [StagingStmt.run] at hu
        split at hu <;> exact Or.inl hu
    | _ =>
      rw [exec_staging rfl hx] at hu
      exact Or.inl hu

/-! ### What is asked -/

theorem part_delete_not {ρ : Type} [Keyed ρ UUID] {t : Table ρ} {p : ρ → Bool} :
    (t.delete fun r => !p r).part p = t.part p := by
  rw [Table.part_delete]
  refine List.filter_eq_self.2 fun r hr => ?_
  rw [(Table.mem_part.1 hr).2]
  rfl

theorem DB.alike_only (db : DB) (userID : UUID) : DB.Alike userID (db.only userID) db :=
  ⟨part_delete_not, part_delete_not, part_delete_not, part_delete_not⟩

theorem DB.NoOther.only {db : DB} {id : UUID} (h : db.NoOther userID id) :
    (db.only userID).NoOther userID id := fun f hf hid => h f (Table.mem_delete.1 hf).1 hid

theorem CallMine.asksOwn (hl : CallMine s userID e) (h : WellFormed s) : AsksOwn s userID e := by
  have halike := DB.alike_only s.db userID
  cases e with
  | query qy =>
    cases qy with
    | fileByID id => exact halike.eval_fileByID (h.noOther hl).only (h.noOther hl)
    | share token => exact hl.elim
    | _ => exact halike.eval hl
  | bucket b => exact hl
  | _ => trivial

end Steps

end Optiflow
