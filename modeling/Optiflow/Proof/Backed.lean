import Optiflow.Proof.Footprint
import Optiflow.Proof.ObjectKeys
import Optiflow.Proof.Playlists
import Optiflow.Proof.Rows
import Optiflow.Proof.Runs

/-!
# Rows and their objects

Database and bucket have no common transaction: that a row names only objects that exist rests on the
order of the calls.  An object is stored before a row names it, and removed only when no row is left
that could (`Backed`).  The outline `backed` says what each call must know for that, with requests one
at a time and any call failing.
-/

namespace Optiflow

open Interleave Code UploadSvc ApiSvc Workers

/-! ## The property -/

/-- The objects that a row names exist: the original unless the row waits for it, the thumbnail, and the
master playlist with every variant playlist that it names. -/
structure RowBacked (b : Bucket) (f : File) : Prop where
  original : f.status ≠ .pending → b.has f.storageKey = true
  thumbnail : ∀ key, f.thumbnailKey = some key → b.has key = true
  playlist : ∀ key, f.playlistKey = some key → ∃ master, b.object? key = some master ∧
    ∀ v ∈ variants master, b.has (hlsPrefix f.id ++ v) = true

/-- Every row is backed by its objects. -/
def RowsBacked (s : Store) : Prop := ∀ f ∈ s.db.files, RowBacked s.bucket f

/-! ## The invariant -/

/-- The keys in a row are those of the row's file. -/
structure Placed (f : File) : Prop where
  original : ∃ name, f.storageKey = storageKey f.userID f.id name
  thumbnail : ∀ key, f.thumbnailKey = some key →
    key = thumbnailKey f.id ∨ key = posterKey f.id ∧ f.playlistKey.isSome = true
  playlist : ∀ key, f.playlistKey = some key → key = masterKey f.id

/-- The row names its own objects, and they exist. -/
def RowGood (b : Bucket) (f : File) : Prop := RowBacked b f ∧ Placed f

/-- The rows of the file have their original. -/
def Uploaded (db : DB) (id : UUID) : Prop := ∀ f ∈ db.files, f.id = id → f.status ≠ .pending

/-- The key belongs to a file that was born or to an upload under way; if it is that of an original, it
is the one that the file was born with. -/
def OriginalKey (s : Store) (key : GoString) : Prop :=
  ∀ userID id name, key = storageKey userID id name →
    (id ∈ s.issued ∨ s.db.files.Used id) ∧ ∀ b ∈ s.db.files.births, b.id = id → b.storageKey = key

/-- The key of the original of a file that was born. -/
def BornKey (s : Store) (key : GoString) : Prop :=
  ∃ b ∈ s.db.files.births, b.storageKey = key ∧ ∃ name, key = storageKey b.userID b.id name

/-- Rows and objects are consistent. -/
structure Backed (s : Store) : Prop where
  row : ∀ f ∈ s.db.files, RowGood s.bucket f
  keys : ∀ o ∈ s.bucket.objects, OriginalKey s o.1
  puts : ∀ p ∈ s.bucket.presignedPuts, BornKey s p.1
  waiting : ∀ m ∈ s.broker.waiting, Uploaded s.db m.task.payload.fileID
  delivered : ∀ m ∈ s.broker.delivered, Uploaded s.db m.task.payload.fileID

/-- A new row waits for its upload under an id that is new, or its original has just been stored. -/
def NewRow (s : Store) (id : UUID) (f : File) : Prop :=
  RowGood s.bucket f ∧ (f.id = id ∨
    f.status ≠ .pending ∧ ∀ o ∈ s.bucket.objects, ∀ userID name, o.1 = storageKey userID f.id name →
      o.1 = f.storageKey)

/-- What a call must know. -/
def CallBacked (s : Store) {α : Type} : Stmt α → Prop
  | .write (.createFile mk) => ∀ id, NewRow s id (mk id)
  | .write (.presignVersion _ _ mk) => ∀ id, (mk id).id = id ∧ RowGood s.bucket (mk id)
  | .write (.saveFile f) => RowGood s.bucket f ∧
      ∃ r ∈ s.db.files, r.id = f.id ∧ (f.status = .pending → r.status = .pending)
  | .write (.updateFile id u) => u.status ≠ .pending ∧
      ∀ r ∈ s.db.files, r.id = id → RowGood s.bucket (u.apply r)
  | .bucket (.presignedPutURL key _) => BornKey s key
  | .bucket (.putObject key body size _) =>
      (∃ userID id name, key = storageKey userID id name ∧ id ∈ s.issued ∧ ¬s.db.files.Used id) ∨
      WorkerKey key ∧ ∀ id, key = masterKey id → ∀ stored, takeDeclared body size = some stored →
        ∀ v ∈ variants stored, s.bucket.has (hlsPrefix id ++ v) = true
  | .bucket (.removeObject key) => ∃ id, Owns id key ∧ ∀ f ∈ s.db.files, f.id ≠ id
  | .broker (.enqueue task) => Uploaded s.db task.payload.fileID
  | .broker (.retry msg) => Uploaded s.db msg.task.payload.fileID
  | _ => True

/-- The outline of rows and objects.  Nothing runs between two calls of a request. -/
def backed (deps : Deps) : Outline (services deps) where
  inv s := WellFormed s ∧ Backed s
  rely s t := s = t
  pre _ _ e s := CallBacked s e
  post _ _ := True
  cond _ := True

/-! ## Objects -/

section Objects

variable {b : Bucket} {f : File} {key : GoString} {body : Bytes}

/-- Only the identity, the keys and whether the row waits matter. -/
theorem RowGood.congr {g : File} (h : RowGood b f) (hid : g.identity = f.identity)
    (hthumb : g.thumbnailKey = f.thumbnailKey) (hplay : g.playlistKey = f.playlistKey)
    (hstatus : g.status ≠ .pending → f.status ≠ .pending) : RowGood b g := by
  simp only [File.identity, File.Identity.mk.injEq] at hid
  obtain ⟨hid, huser, hkey, -, -, -⟩ := hid
  refine ⟨⟨fun hp => ?_, fun k hk => ?_, fun k hk => ?_⟩, ⟨?_, fun k hk => ?_, fun k hk => ?_⟩⟩
  · rw [hkey]
    exact h.1.original (hstatus hp)
  · exact h.1.thumbnail k (hthumb ▸ hk)
  · rw [hid]
    exact h.1.playlist k (hplay ▸ hk)
  · rw [hkey, huser, hid]
    exact h.2.original
  · rw [hid, hplay]
    exact h.2.thumbnail k (hthumb ▸ hk)
  · rw [hid]
    exact h.2.playlist k (hplay ▸ hk)

/-- Presigned URLs do not matter. -/
theorem RowGood.of_objects {b' : Bucket} (h : RowGood b f) (hobjects : b'.objects = b.objects) :
    RowGood b' f := by
  obtain ⟨objects, puts⟩ := b
  obtain ⟨objects', puts'⟩ := b'
  obtain rfl : objects' = objects := hobjects
  exact ⟨⟨h.1.original, h.1.thumbnail, h.1.playlist⟩, h.2⟩

theorem Placed.owns_original (h : Placed f) : Owns f.id f.storageKey := by
  obtain ⟨name, hname⟩ := h.original
  exact hname ▸ owns_storageKey

theorem Placed.owns_thumbnail (h : Placed f) (hkey : f.thumbnailKey = some key) : Owns f.id key := by
  obtain rfl | ⟨rfl, -⟩ := h.thumbnail key hkey
  · exact owns_thumbnailKey
  · exact owns_of_hlsPrefix hlsPrefix_posterKey

theorem Placed.owns_playlist (h : Placed f) (hkey : f.playlistKey = some key) : Owns f.id key :=
  h.playlist key hkey ▸ owns_of_hlsPrefix hlsPrefix_masterKey

/-- Storing an object keeps a row backed, if the variants of a new master playlist are there. -/
theorem RowGood.put (h : RowGood b f)
    (hmaster : key = masterKey f.id → ∀ v ∈ variants body, b.has (hlsPrefix f.id ++ v) = true) :
    RowGood (b.put key body) f := by
  refine ⟨⟨fun hp => Bucket.has_put (h.1.original hp),
    fun k hk => Bucket.has_put (h.1.thumbnail k hk), fun k hk => ?_⟩, h.2⟩
  obtain ⟨master, hobj, hvariants⟩ := h.1.playlist k hk
  by_cases hkey : k = key
  · subst hkey
    refine ⟨body, Bucket.object?_put, fun v hv => ?_⟩
    exact Bucket.has_put (hmaster (h.2.playlist k hk) v hv)
  · refine ⟨master, ?_, fun v hv => Bucket.has_put (hvariants v hv)⟩
    rw [Bucket.object?_put_ne hkey]
    exact hobj

/-- Removing an object of another file keeps a row backed. -/
theorem RowGood.remove {id : UUID} (h : RowGood b f) (hkey : Owns id key) (hne : f.id ≠ id) :
    RowGood (b.remove key) f := by
  have other : ∀ k, Owns f.id k → k ≠ key := fun k hk he => hne (hk.id_eq (he ▸ hkey))
  refine ⟨⟨fun hp => ?_, fun k hk => ?_, fun k hk => ?_⟩, h.2⟩
  · rw [Bucket.has_remove_ne (other _ h.2.owns_original)]
    exact h.1.original hp
  · rw [Bucket.has_remove_ne (other _ (h.2.owns_thumbnail hk))]
    exact h.1.thumbnail k hk
  · obtain ⟨master, hobj, hvariants⟩ := h.1.playlist k hk
    refine ⟨master, ?_, fun v hv => ?_⟩
    · rw [Bucket.object?_remove_ne (other _ (h.2.owns_playlist hk))]
      exact hobj
    · rw [Bucket.has_remove_ne (other _ (owns_of_hlsPrefix (List.prefix_append _ _)))]
      exact hvariants v hv

end Objects

/-! ## Writes -/

section Writes

variable {s : Store} {db' : DB} {q : Request} {α : Type} {o : Oracle}

theorem OriginalKey.mono {t : Store} {key : GoString} (h : OriginalKey s key)
    (hissued : s.issued ⊆ t.issued) (hgrow : s.db.files.births ⊆ t.db.files.births)
    (hborn : ∀ b ∈ t.db.files.births, b ∈ s.db.files.births ∨
      ∀ userID name, key = storageKey userID b.id name → key = b.storageKey) : OriginalKey t key := by
  intro userID id name hkey
  obtain ⟨hused, hbirth⟩ := h userID id name hkey
  refine ⟨hused.imp (fun hid => hissued hid) fun hid => hid.mono hgrow, fun b hb hid => ?_⟩
  obtain hb | hb := hborn b hb
  · exact hbirth b hb hid
  · exact (hb userID name (hid ▸ hkey)).symm

theorem BornKey.mono {t : Store} {key : GoString} (h : BornKey s key)
    (hgrow : s.db.files.births ⊆ t.db.files.births) : BornKey t key := by
  obtain ⟨b, hb, hkey⟩ := h
  exact ⟨b, hgrow hb, hkey⟩

theorem TaskKnown.used_fileID {task : Task} (h : TaskKnown s task) :
    s.db.files.Used task.payload.fileID := by
  obtain ⟨b, hb, ht⟩ := h
  exact Table.used_iff.2 ⟨b, hb, (fileID_processingTask ht).symm⟩

/-- What a write to the file rows must do. -/
theorem Backed.write_of (h : Backed s) (hs : WellFormed s)
    (hgrow : s.db.files.births ⊆ db'.files.births)
    (hborn : ∀ b ∈ db'.files.births, b ∈ s.db.files.births ∨ ∀ o ∈ s.bucket.objects,
      ∀ userID name, o.1 = storageKey userID b.id name → o.1 = b.storageKey)
    (hrow : ∀ f ∈ db'.files, RowGood s.bucket f)
    (htask : ∀ id, s.db.files.Used id → Uploaded s.db id → Uploaded db' id) :
    Backed { s with db := db' } where
  row := hrow
  keys x hx := OriginalKey.mono (s := s) (t := { s with db := db' }) (h.keys x hx)
    (List.Subset.refl _) hgrow fun b hb => (hborn b hb).imp id fun hb => hb x hx
  puts p hp := BornKey.mono (s := s) (t := { s with db := db' }) (h.puts p hp) hgrow
  waiting m hm := htask _ (hs.waiting m hm).used_fileID (h.waiting m hm)
  delivered m hm := htask _ (hs.delivered m hm).used_fileID (h.delivered m hm)

/-- A write that leaves the rows as they are, up to which of them is current, or removes some. -/
theorem Backed.write_same (h : Backed s) (hs : WellFormed s)
    (hbirths : db'.files.births = s.db.files.births)
    (hrow : ∀ f ∈ db'.files, ∃ g ∈ s.db.files, ∃ b, f = g.withCurrent b) :
    Backed { s with db := db' } := by
  refine h.write_of hs (hbirths ▸ List.Subset.refl _) (fun b hb => Or.inl (hbirths ▸ hb))
    (fun f hf => ?_) fun id _ hup f hf hid => ?_
  · obtain ⟨g, hg, b, rfl⟩ := hrow f hf
    exact (h.row g hg).congr rfl rfl rfl id
  · obtain ⟨g, hg, b, rfl⟩ := hrow f hf
    exact hup g hg hid

/-- A new row. -/
theorem Backed.insert (h : Backed s) (hs : WellFormed s) {f : File} {rows : Table File}
    (hu : ¬rows.Used (key f)) (hbirths : rows.births = s.db.files.births)
    (hrows : ∀ g ∈ rows, ∃ r ∈ s.db.files, ∃ b, g = r.withCurrent b) (hf : RowGood s.bucket f)
    (hown : ∀ o ∈ s.bucket.objects, ∀ userID name, o.1 = storageKey userID f.id name →
      o.1 = f.storageKey) :
    Backed { s with db := { s.db with files := rows.insert f hu } } := by
  have hnew : ¬s.db.files.Used f.id := by
    rw [Table.used_iff, ← hbirths, ← Table.used_iff]
    exact hu
  have hsub : s.db.files.births ⊆ (rows.insert f hu).births := by
    rw [← hbirths]
    exact List.subset_cons_self _ _
  refine h.write_of hs hsub (fun b hb => ?_) (fun g hg => ?_) fun id hid hup g hg hgid => ?_
  · rcases List.mem_cons.1 hb with rfl | hb
    · exact Or.inr hown
    · exact Or.inl (hbirths ▸ hb)
  · rcases (Table.mem_insert hu).1 hg with rfl | hg
    · exact hf
    · obtain ⟨r, hr, b, rfl⟩ := hrows g hg
      exact (h.row r hr).congr rfl rfl rfl id
  · rcases (Table.mem_insert hu).1 hg with rfl | hg
    · exact absurd (hgid ▸ hid) hnew
    · obtain ⟨r, hr, b, rfl⟩ := hrows g hg
      exact hup r hr hgid

/-- Nothing is stored under a key of an id that is new. -/
theorem Backed.no_original (h : Backed s) {id : UUID} (hissued : id ∉ s.issued)
    (hused : ¬s.db.files.Used id) {x : GoString × Bytes} (hx : x ∈ s.bucket.objects) (userID : UUID)
    (name : GoString) : x.1 ≠ storageKey userID id name := fun hkey =>
  ((h.keys x hx userID id name hkey).1.elim hissued hused).elim

theorem Backed.write {w : Write α} {a : Except DbError α} (h : Backed s) (hs : WellFormed s)
    (hw : WriteKnown s q w) (hb : CallBacked s (.write w))
    (hrun : w.run o s.issued s.db = some (a, db')) : Backed { s with db := db' } := by
  have hx : exec o (.write w) s = some (a, { s with db := db' }) := by simp [exec, hrun]
  have same : ∀ g ∈ s.db.files, ∃ r ∈ s.db.files, ∃ b, g = r.withCurrent b :=
    fun g hg => ⟨g, hg, g.isCurrent, rfl⟩
  cases w with
  | createFile mk =>
    obtain ⟨-, rfl⟩ | ⟨hu, hissued, hused, -, rfl⟩ := Write.createFile_cases hrun
    · exact h
    · obtain ⟨hgood, hown⟩ := hb o.uuid
      refine h.insert hs hu rfl same (hgood.congr ?_ rfl rfl id) fun x hx userID name hkey => ?_
      · exact identity_columnDefaults (hw o.uuid).2.1
      · obtain hid | ⟨-, hown⟩ := hown
        · exact absurd (hid ▸ hkey) (h.no_original hissued hused hx userID name)
        · exact hown x hx userID name hkey
  | presignVersion userID root mk =>
    obtain ⟨-, rfl⟩ | ⟨hu, hissued, hused, -, rfl⟩ := Write.presignVersion_cases hrun
    · exact h
    · obtain ⟨hid, hgood⟩ := hb o.uuid
      obtain ⟨-, -, -, hversion, -⟩ := hw.2.2 o.uuid
      refine Backed.insert h hs hu rfl (fun g hg => ?_) (hgood.congr ?_ rfl rfl id)
        fun x hx userID name hkey => ?_
      · obtain ⟨r, hr, rfl⟩ := DB.mem_supersede.1 hg
        split
        · exact ⟨r, hr, false, rfl⟩
        · exact ⟨r, hr, r.isCurrent, rfl⟩
      · exact identity_columnDefaults hversion
      · exact absurd (hid ▸ hkey) (h.no_original hissued hused hx userID name)
  | saveFile f =>
    obtain ⟨-, rfl⟩ | ⟨-, rfl⟩ := Write.saveFile_cases hrun
    · exact h
    · obtain ⟨hgood, r, hr, hid, hstatus⟩ := hb
      have hsaved := DB.savedRow_of_mem hr hid
      have hbirths : (s.db.saveFile f).files.births = s.db.files.births := by
        refine Table.births_save ?_
        rw [key_file, DB.id_savedRow]
        exact hw.2.used
      refine h.write_of hs (hbirths ▸ List.Subset.refl _) (fun b hb => Or.inl (hbirths ▸ hb))
        (fun g hg => ?_) fun id _ hup g hg hgid => ?_
      · obtain rfl | ⟨hg, -⟩ := DB.mem_saveFile.1 hg
        · rw [hsaved]
          exact hgood
        · exact h.row g hg
      · obtain rfl | ⟨hg, -⟩ := DB.mem_saveFile.1 hg
        · rw [hsaved] at hgid ⊢
          exact fun hp => hup r hr (hid.trans hgid) (hstatus hp)
        · exact hup g hg hgid
  | updateFile id u =>
    obtain ⟨-, rfl⟩ | ⟨-, rfl⟩ := Write.updateFile_cases hrun
    · exact h
    · refine h.write_of hs (List.Subset.refl _) (fun b hb => Or.inl hb) (fun g hg => ?_)
        fun id' _ hup g hg hgid => ?_
      · obtain ⟨r, hr, rfl⟩ := DB.mem_updateFile.1 hg
        by_cases hid : r.id = id
        · rw [if_pos hid]
          exact hb.2 r hr hid
        · rw [if_neg hid]
          exact h.row r hr
      · obtain ⟨r, hr, rfl⟩ := DB.mem_updateFile.1 hg
        by_cases hid : r.id = id
        · rw [if_pos hid]
          exact hb.1
        · rw [if_neg hid] at hgid ⊢
          exact hup r hr hgid
  | restoreVersion userID root targetID =>
    refine h.write_same hs ?_ fun f hf => (file_cases hx hf).resolve_right id
    obtain ⟨-, rfl⟩ | ⟨-, rfl⟩ := Write.restoreVersion_cases hrun <;> rfl
  | deleteFile userID root =>
    refine h.write_same hs ?_ fun f hf => (file_cases hx hf).resolve_right id
    obtain ⟨-, rfl⟩ | ⟨-, rfl⟩ := Write.deleteFile_cases hrun <;> rfl
  | deleteFolder userID folderID =>
    refine h.write_same hs ?_ fun f hf => (file_cases hx hf).resolve_right id
    obtain ⟨-, rfl⟩ | ⟨versions, -, hd⟩ := Write.deleteFolder_cases hrun
    · rfl
    · exact (DB.shrinks_deleteFolderTree hd).file_births
  | _ =>
    obtain ⟨folders, shares, tokens, rfl⟩ := Write.leaves_files rfl hrun
    exact h.write_same hs rfl same

end Writes

/-! ## Other steps -/

section Steps

variable {s s' : Store} {q : Request} {α : Type} {o : Oracle}

/-- A step that leaves the database alone. -/
theorem Backed.same_db (h : Backed s) (hdb : s'.db = s.db) (hissued : s.issued ⊆ s'.issued)
    (hrow : ∀ f ∈ s.db.files, RowGood s'.bucket f)
    (hkeys : ∀ x ∈ s'.bucket.objects, x ∈ s.bucket.objects ∨ OriginalKey s' x.1)
    (hputs : ∀ p ∈ s'.bucket.presignedPuts, p ∈ s.bucket.presignedPuts ∨ BornKey s p.1)
    (hwaiting : ∀ m ∈ s'.broker.waiting, Uploaded s.db m.task.payload.fileID)
    (hdelivered : ∀ m ∈ s'.broker.delivered, Uploaded s.db m.task.payload.fileID) : Backed s' := by
  have hsub : s.db.files.births ⊆ s'.db.files.births := hdb ▸ List.Subset.refl _
  refine ⟨fun f hf => hrow f (hdb ▸ hf), fun x hx => ?_, fun p hp => ?_, hdb ▸ hwaiting,
    hdb ▸ hdelivered⟩
  · obtain hx | hx := hkeys x hx
    · exact (h.keys x hx).mono hissued hsub fun b hb => Or.inl (hdb ▸ hb)
    · exact hx
  · obtain hp | hp := hputs p hp
    · exact (h.puts p hp).mono hsub
    · exact hp.mono hsub

/-- The key of a file's original is that of no other object. -/
theorem BornKey.originalKey {key : GoString} (h : BornKey s key) : OriginalKey s key := by
  obtain ⟨b, hb, hkey, name, hname⟩ := h
  intro userID id name' hkey'
  obtain rfl : b.id = id := storageKey_inj (hname.symm.trans hkey')
  refine ⟨Or.inr (Table.used_iff.2 ⟨b, hb, rfl⟩), fun b' hb' hid => ?_⟩
  rw [Table.eq_of_birth hb' hb hid]
  exact hkey

theorem storageKey_ne_masterKey {userID id id' : UUID} {name : GoString} :
    storageKey userID id name ≠ masterKey id' := fun h =>
  not_hlsPrefix_storageKey (h ▸ hlsPrefix_masterKey)

theorem Backed.bucket {b : BucketStmt α} {a : α} (h : Backed s) (hb : CallBacked s (.bucket b))
    (hx : exec o (.bucket b) s = some (a, s')) : Backed s' := by
  obtain ⟨-, rfl⟩ := Prod.mk.inj (Option.some.inj hx)
  have same : ∀ {b' : Bucket}, (∀ f ∈ s.db.files, RowGood b' f) →
      (∀ x ∈ b'.objects, x ∈ s.bucket.objects ∨ OriginalKey s x.1) →
      (∀ p ∈ b'.presignedPuts, p ∈ s.bucket.presignedPuts ∨ BornKey s p.1) →
      Backed { s with bucket := b' } := fun hrow hkeys hputs =>
    h.same_db rfl (List.Subset.refl _) hrow hkeys hputs h.waiting h.delivered
  have idle : Backed { s with bucket := s.bucket } := h
  cases b with
  | presignedPutURL key expiry =>
    simp only [BucketStmt.run]
    split
    · exact idle
    · refine same (fun f hf => (h.row f hf).of_objects rfl) (fun x hx => Or.inl hx) fun p hp => ?_
      rcases List.mem_cons.1 hp with rfl | hp
      · exact Or.inr hb
      · exact Or.inl hp
  | putObject key body size contentType =>
    simp only [BucketStmt.run]
    split
    · exact idle
    · next stored hstored =>
      have htaken : takeDeclared body size = some stored := by
        split at hstored
        · cases hstored
        · exact hstored
      refine same (fun f hf => (h.row f hf).put fun hmaster => ?_) (fun x hx => ?_) fun p hp => Or.inl hp
      · obtain ⟨userID, id, name, rfl, -⟩ | ⟨-, hvariants⟩ := hb
        · exact absurd hmaster storageKey_ne_masterKey
        · exact hvariants f.id hmaster stored htaken
      · rcases List.mem_cons.1 hx with rfl | hx
        · refine Or.inr fun userID' id' name' hkey => ?_
          obtain ⟨userID, id, name, rfl, hissued, hused⟩ | ⟨hworker, -⟩ := hb
          · obtain rfl := storageKey_inj hkey
            refine ⟨Or.inl hissued, fun b hb hid => absurd ?_ hused⟩
            exact Table.used_iff.2 ⟨b, hb, hid⟩
          · exact absurd hkey (hworker.ne_storageKey _ _ _)
        · exact Or.inl (List.mem_filter.1 hx).1
  | removeObject key =>
    simp only [BucketStmt.run]
    split
    · exact idle
    · obtain ⟨id, hkey, hgone⟩ := hb
      exact same (fun f hf => (h.row f hf).remove hkey (hgone f hf))
        (fun x hx => Or.inl (List.mem_filter.1 hx).1) fun p hp => Or.inl hp
  | _ => exact idle

theorem Backed.broker {b : BrokerStmt α} {a : α} (h : Backed s) (hb : CallBacked s (.broker b))
    (hx : exec o (.broker b) s = some (a, s')) : Backed s' := by
  obtain ⟨-, rfl⟩ := Prod.mk.inj (Option.some.inj hx)
  have same : ∀ {b' : Broker}, (∀ m ∈ b'.waiting, Uploaded s.db m.task.payload.fileID) →
      b'.delivered = s.broker.delivered → Backed { s with broker := b' } := fun hwaiting hdelivered =>
    h.same_db rfl (List.Subset.refl _) h.row (fun x hx => Or.inl hx) (fun p hp => Or.inl hp) hwaiting
      (hdelivered ▸ h.delivered)
  cases b with
  | enqueue task =>
    simp only [BrokerStmt.run]
    split
    · exact same h.waiting rfl
    · refine same (fun m hm => ?_) rfl
      rcases List.mem_append.1 hm with hm | hm
      · exact h.waiting m hm
      · rw [List.mem_singleton.1 hm]
        exact hb
  | retry msg =>
    refine same (fun m hm => ?_) rfl
    rcases List.mem_append.1 hm with hm | hm
    · exact h.waiting m hm
    · rw [List.mem_singleton.1 hm]
      exact hb
  | archive msg => exact same h.waiting rfl

theorem Backed.exec {e : Stmt α} {a : α} (h : Backed s) (hs : WellFormed s) (hw : CallKnown s q e)
    (hb : CallBacked s e) (hx : exec o e s = some (a, s')) : Backed s' := by
  cases e with
  | write w =>
    obtain ⟨db', hrun, rfl⟩ := exec_write hx
    exact h.write hs hw hb hrun
  | bucket b => exact h.bucket hb hx
  | broker b => exact h.broker hb hx
  | newUUID =>
    simp only [Optiflow.exec] at hx
    split at hx
    · cases hx
    · obtain ⟨-, rfl⟩ := Prod.mk.inj (Option.some.inj hx)
      refine h.same_db rfl (List.subset_cons_self _ _) h.row (fun x hx => ?_) (fun p hp => Or.inl hp)
        h.waiting h.delivered
      exact Or.inl hx
  | staging st =>
    obtain ⟨-, rfl⟩ := Prod.mk.inj (Option.some.inj hx)
    exact h.same_db rfl (List.Subset.refl _) h.row (fun x hx => Or.inl hx) (fun p hp => Or.inl hp)
      h.waiting h.delivered
  | _ =>
    obtain rfl := exec_looks (by trivial) hx
    exact h

theorem Backed.launch (h : Backed s) (hq : q.launch s = some s') : Backed s' := by
  obtain ⟨hdb, hb, hi, -, ⟨hbroker, -⟩ | ⟨worker, msg, rfl, hm, hbroker⟩⟩ := launch_cases hq
  · exact h.same_db hdb (hi ▸ List.Subset.refl _) (hb ▸ h.row) (fun x hx => Or.inl (hb ▸ hx))
      (fun p hp => Or.inl (hb ▸ hp)) (hbroker ▸ h.waiting) (hbroker ▸ h.delivered)
  · refine h.same_db hdb (hi ▸ List.Subset.refl _) (hb ▸ h.row) (fun x hx => Or.inl (hb ▸ hx))
      (fun p hp => Or.inl (hb ▸ hp)) (fun m hm' => ?_) fun m hm' => ?_
    · rw [hbroker] at hm'
      exact h.waiting m (List.mem_of_mem_erase hm')
    · rw [hbroker] at hm'
      rcases List.mem_cons.1 hm' with rfl | hm'
      · exact h.waiting m hm
      · exact h.delivered m hm'

/-- A client stores originals only. -/
theorem Backed.env {v : EnvMove} (h : Backed s) (hv : v.run s = some s') : Backed s' := by
  cases v with
  | put key body =>
    simp only [EnvMove.run] at hv
    split at hv
    · next hput =>
      obtain rfl := Option.some.inj hv
      obtain ⟨p, hp, hpk⟩ := List.any_eq_true.1 hput
      simp only [Bool.and_eq_true, decide_eq_true_eq] at hpk
      have hborn := hpk.1 ▸ h.puts p hp
      refine h.same_db rfl (List.Subset.refl _) (fun f hf => (h.row f hf).put fun hmaster => ?_)
        (fun x hx => ?_) (fun p hp => Or.inl hp) h.waiting h.delivered
      · obtain ⟨b, -, -, name, hname⟩ := hborn
        exact absurd (hname.symm.trans hmaster) storageKey_ne_masterKey
      · rcases List.mem_cons.1 hx with rfl | hx
        · exact Or.inr hborn.originalKey
        · exact Or.inl (List.mem_filter.1 hx).1
    · cases hv
  | redeliver msg =>
    simp only [EnvMove.run] at hv
    split at hv
    · next hm =>
      obtain rfl := Option.some.inj hv
      refine h.same_db rfl (List.Subset.refl _) h.row (fun x hx => Or.inl hx) (fun p hp => Or.inl hp)
        (fun m hm' => ?_) h.delivered
      rcases List.mem_append.1 hm' with hm' | hm'
      · exact h.waiting m hm'
      · rw [List.mem_singleton.1 hm']
        exact h.delivered msg hm
    · cases hv
  | _ =>
    simp only [EnvMove.run] at hv
    split at hv
    · obtain rfl := Option.some.inj hv
      exact h.same_db rfl (List.Subset.refl _) h.row (fun x hx => Or.inl hx) (fun p hp => Or.inl hp)
        h.waiting h.delivered
    · cases hv

end Steps

end Optiflow
