import Optiflow.Proof.BackedCalls
import Optiflow.Proof.Finished

/-!
# What a delete leaves behind

`cleanupFileObjects` decides from the columns of a deleted row which objects to remove.  A job stores its
objects before it updates the row: when it stops in between for good, the columns do not tell.  A delete
whose storage calls succeed leaves nothing of a file behind exactly when the row records what is stored
for it (`delete_leaves_nothing_iff`).
-/

namespace Optiflow

open Interleave Code UploadSvc ApiSvc Workers

/-! ## The property -/

/-- The requests that delete files. -/
def Request.deletes : Request → Bool
  | .deleteFile _ _ => true
  | .deleteFolder _ _ => true
  | _ => false

/-- No call to the object store fails. -/
def storageSucceeds : ServiceStep → Bool
  | .call _ _ o (.bucket _) _ => !o.fails
  | _ => true

/-- The row tells of the thumbnail that is stored for the file, and of anything under its hls prefix. -/
def Recorded (b : Bucket) (f : File) : Prop :=
  (b.has (thumbnailKey f.id) = true → f.thumbnailKey = some (thumbnailKey f.id)) ∧
    ∀ key, hlsPrefix f.id <+: key → b.has key = true → f.playlistKey.isSome = true

/-! ## What is removed -/

/-- The key is removed with the row. -/
def Cleaned (f : File) (key : GoString) : Prop :=
  key = f.storageKey ∨ f.thumbnailKey = some key ∨
    f.playlistKey.isSome = true ∧ hlsPrefix f.id <+: key

/-- The objects with a key for which `p` holds are gone; the database is as it was. -/
structure Without (p : GoString → Prop) (s t : Store) : Prop where
  db : t.db = s.db
  has : ∀ key, t.bucket.has key = true ↔ s.bucket.has key = true ∧ ¬p key

theorem Without.congr {p p' : GoString → Prop} {s t : Store} (h : Without p s t)
    (hp : ∀ key, s.bucket.has key = true → (p' key ↔ p key)) : Without p' s t :=
  ⟨h.db, fun key => (h.has key).trans (and_congr_right fun hk => not_congr (hp key hk).symm)⟩

theorem Without.trans {p p' : GoString → Prop} {s t u : Store} (h : Without p s t)
    (h' : Without p' t u) : Without (fun key => p key ∨ p' key) s u :=
  ⟨h'.db.trans h.db, fun key => by rw [h'.has, h.has, not_or, and_assoc]⟩

section Runs

variable {deps : Deps} {q : Request} {s : Store} {Ψ : Reply → Store → Prop} {k : Unit → Prog Stmt Reply}

/-- A run alone whose calls to the object store succeed. -/
abbrev Clears (deps : Deps) (q : Request) (p : Prog Stmt Reply) (s : Store)
    (Ψ : Reply → Store → Prop) : Prop :=
  Alone deps (fun st => storageSucceeds st = true) q p s Ψ

theorem clears_removeObjects {keys : List GoString}
    (h : ∀ t, Without (fun key => key ∈ keys) s t → Clears deps q (k ()) t Ψ) :
    Clears deps q (removeObjects keys k) s Ψ := by
  induction keys generalizing s with
  | nil => exact h s ⟨rfl, fun key => by simp⟩
  | cons key keys ih =>
    refine alone_bucket fun o ho => ih fun t ht => h t ?_
    have hfails : o.fails = false := by simpa [storageSucceeds] using ho
    have hremoved : Without (fun key' => key' = key) s
        { s with bucket := ((BucketStmt.removeObject key).run o s.now s.bucket).2 } := by
      simp only [BucketStmt.run, hfails, Bool.false_eq_true, if_false]
      refine ⟨rfl, fun key' => ?_⟩
      by_cases hkey : key' = key
      · simp [hkey, Bucket.has_remove_self]
      · simp [hkey, Bucket.has_remove_ne hkey]
    exact (hremoved.trans ht).congr fun key' _ => List.mem_cons

theorem clears_cleanupFileObjects {file : File}
    (h : ∀ t, Without (Cleaned file) s t → Clears deps q (k ()) t Ψ) :
    Clears deps q (cleanupFileObjects file k) s Ψ := by
  unfold cleanupFileObjects
  rw [Code.ite_run]
  split
  · next hplay =>
    refine alone_bucket fun o ho => ?_
    have hfails : o.fails = false := by simpa [storageSucceeds] using ho
    simp only [BucketStmt.run, hfails, Bool.false_eq_true, if_false]
    refine clears_removeObjects fun t ht => h t (ht.congr fun key hkey => ?_)
    rw [Bucket.has_iff] at hkey
    simp [Cleaned, hplay, hkey]
  · next hplay =>
    refine clears_removeObjects fun t ht => h t (ht.congr fun key _ => ?_)
    simp [Cleaned, hplay]

theorem clears_cleanupFiles {files : List File}
    (h : ∀ t, Without (fun key => ∃ f ∈ files, Cleaned f key) s t → Clears deps q (k ()) t Ψ) :
    Clears deps q (cleanupFiles files k) s Ψ := by
  induction files generalizing s with
  | nil => exact h s ⟨rfl, fun key => by simp⟩
  | cons file files ih =>
    refine clears_cleanupFileObjects fun t ht => ih fun u hu => h u ?_
    exact (ht.trans hu).congr fun key _ => by simp

/-- What a delete does: some rows go away, and with them the objects that these rows tell of. -/
def Cleanup (s t : Store) : Prop :=
  ∃ removed : List File, s.db.Removes removed t.db ∧
    ∀ key, t.bucket.has key = true ↔ s.bucket.has key = true ∧ ¬∃ f ∈ removed, Cleaned f key

theorem Cleanup.refl (s : Store) : Cleanup s s := ⟨[], .refl s.db, fun key => by simp⟩

/-- Any error leaves everything as it was. -/
theorem clears_error (status : ℕ) (message : String) :
    Clears deps q (.ret (ErrorReply.error status message)) s fun _ t => Cleanup s t := .refl s

theorem clears_removed {db' : DB} {versions : List File} (hremoves : s.db.Removes versions db') :
    Clears deps q (cleanupFiles versions fun _ => .ret .noContent) { s with db := db' }
      fun _ t => Cleanup s t :=
  clears_cleanupFiles fun t ht => ⟨versions, by rw [ht.db]; exact hremoves, ht.has⟩

theorem clears_deleteFile (userID : UUID) (id : GoString) :
    Clears deps q (deleteFile userID id .ret) s fun _ t => Cleanup s t := by
  refine Early.parseID (P := fun p => Clears deps q p s fun _ t => Cleanup s t) clears_error
    fun fileID _ => alone_query fun o _ => ?_
  refine Early.foundOr (P := fun p => Clears deps q p s fun _ t => Cleanup s t) clears_error
    fun file _ => alone_write fun o' a db' _ hw => ?_
  obtain ⟨rfl, rfl⟩ | ⟨rfl, rfl⟩ := Write.deleteFile_cases hw
  · exact clears_error _ _
  · exact clears_removed (DB.removes_deleteFile userID file.lineageRootID)

theorem clears_deleteFolder (userID : UUID) (id : GoString) :
    Clears deps q (deleteFolder userID id .ret) s fun _ t => Cleanup s t := by
  refine Early.parseID (P := fun p => Clears deps q p s fun _ t => Cleanup s t) clears_error
    fun folderID _ => alone_query fun o _ => ?_
  refine Early.foundOr (P := fun p => Clears deps q p s fun _ t => Cleanup s t) clears_error
    fun _ _ => alone_write fun o' a db' _ hw => ?_
  obtain ⟨rfl, rfl⟩ | ⟨removed, rfl, hd⟩ := Write.deleteFolder_cases hw
  · exact clears_error _ _
  · exact clears_removed (DB.removes_deleteFolderTree hd)

theorem cleanup_of_finishes {tr : List ServiceStep} {r : Reply} {t : Store} (hq : q.deletes = true)
    (hrun : (services deps).Finishes q ((services deps).handler q) s tr r t)
    (hstorage : ∀ st ∈ tr, storageSucceeds st = true) : Cleanup s t := by
  have hends : Clears deps q ((services deps).handler q) s fun _ t => Cleanup s t := by
    cases q with
    | deleteFile userID id => exact clears_deleteFile userID id
    | deleteFolder userID id => exact clears_deleteFolder userID id
    | _ => cases hq
  exact hrun.of_ends hends hstorage

end Runs

/-! ## What is left -/

section Left

variable {s t : Store} {f : File}

/-- Rows and objects are consistent: what is removed with a row is the row's. -/
theorem Cleaned.owns {key : GoString} (hf : Placed f) (h : Cleaned f key) : Owns f.id key := by
  obtain rfl | h | ⟨-, h⟩ := h
  · exact hf.owns_original
  · exact hf.owns_thumbnail h
  · exact owns_of_hlsPrefix h

/-- The original of a row is stored under its storage key and no other. -/
theorem Backed.storageKey_eq (h : Backed s) (hs : WellFormed s) (hf : f ∈ s.db.files) {userID : UUID}
    {name : GoString} (hhas : s.bucket.has (storageKey userID f.id name) = true) :
    storageKey userID f.id name = f.storageKey := by
  obtain ⟨x, hx, hkey⟩ := List.mem_map.1 (Bucket.has_iff.1 hhas)
  obtain ⟨b, hb, hid⟩ := hs.file f hf
  have hborn := (h.keys x hx userID f.id name hkey).2 b hb (congrArg File.Identity.id hid)
  rw [← hkey, ← hborn]
  exact congrArg File.Identity.storageKey hid

theorem Cleanup.nothing_left_iff (h : Cleanup s t) (hs : WellFormed s) (hb : Backed s)
    (hf : f ∈ s.db.files) (hgone : ∀ g ∈ t.db.files, g.id ≠ f.id) :
    (∀ key, Owns f.id key → t.bucket.has key = false) ↔ Recorded s.bucket f := by
  obtain ⟨removed, hremoves, hhas⟩ := h
  have hremoved : f ∈ removed := by
    by_contra hkept
    exact hgone f ((hremoves.files f).2 ⟨hf, hkept⟩) rfl
  -- An object of the file is removed with the row of the file, or not at all.
  have hleft : ∀ key, Owns f.id key →
      (t.bucket.has key = false ↔ (s.bucket.has key = true → Cleaned f key)) := by
    intro key hkey
    rw [← Bool.not_eq_true, hhas, not_and, not_not]
    refine imp_congr_right fun _ => ⟨?_, fun hclean => ⟨f, hremoved, hclean⟩⟩
    rintro ⟨g, hg, hclean⟩
    have hgs := hremoves.mem g hg
    have hid := (hclean.owns (hb.row g hgs).2).id_eq hkey
    exact Table.eq_of_key hgs hf hid ▸ hclean
  have hplaced := (hb.row f hf).2
  constructor
  · intro hnothing
    refine ⟨fun hthumb => ?_, fun key hkey hhls => ?_⟩
    · obtain h | h | ⟨-, h⟩ := (hleft _ owns_thumbnailKey).1 (hnothing _ owns_thumbnailKey) hthumb
      · obtain ⟨name, hname⟩ := hplaced.original
        exact absurd (hname.symm.trans h.symm) storageKey_ne_thumbnailKey
      · exact h
      · exact absurd h not_hlsPrefix_thumbnailKey
    · have howns := owns_of_hlsPrefix hkey
      obtain rfl | h | ⟨h, -⟩ := (hleft key howns).1 (hnothing key howns) hhls
      · obtain ⟨name, hname⟩ := hplaced.original
        exact absurd (hname ▸ hkey) not_hlsPrefix_storageKey
      · obtain rfl | ⟨-, h⟩ := hplaced.thumbnail key h
        · exact absurd hkey not_hlsPrefix_thumbnailKey
        · exact h
      · exact h
  · rintro ⟨hthumb, hhls⟩ key hkey
    refine (hleft key hkey).2 fun hs' => ?_
    obtain ⟨userID, name, rfl⟩ | rfl | hpre := hkey
    · exact Or.inl (hb.storageKey_eq hs hf hs')
    · exact Or.inr (Or.inl (hthumb hs'))
    · exact Or.inr (Or.inr ⟨hhls key hpre hs', hpre⟩)

end Left

/-- **A delete leaves nothing of a file behind** exactly when the row records what the jobs have stored
for the file. -/
theorem delete_leaves_nothing_iff (deps : Deps) (hints : GoInts deps.tools) (users : Table User)
    {c : Services} (h : (services deps).Reaches Machine.sequential (start (Store.fresh users)) c)
    {q : Request} (hq : q.deletes = true) {tr : List ServiceStep} {r : Reply} {t : Store}
    (hrun : (services deps).Finishes q ((services deps).handler q) c.store tr r t)
    (hstorage : ∀ st ∈ tr, storageSucceeds st = true) {f : File} (hf : f ∈ c.store.db.files)
    (hgone : ∀ g ∈ t.db.files, g.id ≠ f.id) :
    (∀ key, Owns f.id key → t.bucket.has key = false) ↔ Recorded c.store.bucket f := by
  obtain ⟨hs, hb⟩ := backed_always deps hints users h
  exact (cleanup_of_finishes hq hrun hstorage).nothing_left_iff hs hb hf hgone

/-! ### An image -/

/-- Alice deletes the image. -/
def deleteImage : Request := .deleteFile 1 (text 100)

/-- The thumbnail of the deleted file is left. -/
def thumbnailLeft (s t : Store) : Bool :=
  s.db.files.rows.any fun f => t.db.files.rows.all (fun g => g.id ≠ f.id) &&
    t.bucket.has (thumbnailKey f.id)

/-- Only the thumbnail is stored beside the original, and the row records it. -/
def thumbnailRecorded (s : Store) (f : File) : Bool :=
  f.thumbnailKey = some (thumbnailKey f.id) &&
    s.bucket.objects.all fun o => !(hlsPrefix f.id).isPrefixOf o.1

theorem recorded_of_thumbnailRecorded {s : Store} {f : File} (h : thumbnailRecorded s f = true) :
    Recorded s.bucket f := by
  simp only [thumbnailRecorded, Bool.and_eq_true, decide_eq_true_eq, List.all_eq_true,
    Bool.not_eq_true'] at h
  refine ⟨fun _ => h.1, fun key hkey hhas => ?_⟩
  obtain ⟨o, ho, rfl⟩ := List.mem_map.1 (Bucket.has_iff.1 hhas)
  rw [← List.isPrefixOf_iff_prefix, h.2 o ho] at hkey
  cases hkey

/-- The thumbnail is made and recorded, and the image deleted. -/
theorem delete_leaves_nothing_iff_thumbnail :
    ∃ (c : Services) (tr : List ServiceStep) (r : Reply) (t : Store),
      (services plainDeps).Reaches Machine.sequential (start (Store.fresh aliceOnly)) c ∧
      (services plainDeps).Finishes deleteImage ((services plainDeps).handler deleteImage)
        c.store tr r t ∧
      ∃ f ∈ c.store.db.files, f.thumbnailKey.isSome = true ∧ ∀ key, Owns f.id key →
        t.bucket.has key = false := by
  obtain ⟨c, hc, hP⟩ := exists_run Machine.sequential
    (uploadImage ++ [.start (.deliver .image imageMessage), .step 2 {}, .step 2 {}, .step 2 {},
      .step 2 {}])
    (fun c => ((services plainDeps).play deleteImage [{}, {}, {}, {}]
      ((services plainDeps).handler deleteImage) c.store).elim false fun x =>
        x.1.all storageSucceeds && c.store.db.files.rows.any fun f =>
          x.2.2.db.files.rows.all (fun g => g.id ≠ f.id) && thumbnailRecorded c.store f)
    (by decide +kernel)
  obtain ⟨tr, r, t, hrun, hP⟩ := Machine.exists_finishes _ _ _ _ (fun tr _ t =>
    tr.all storageSucceeds && c.store.db.files.rows.any fun f =>
      t.db.files.rows.all (fun g => g.id ≠ f.id) && thumbnailRecorded c.store f) _ hP
  simp only [Bool.and_eq_true, List.all_eq_true, List.any_eq_true, decide_eq_true_eq] at hP
  obtain ⟨hstorage, f, hf, hgone, hrecorded⟩ := hP
  have hthumb := (Bool.and_eq_true _ _ ▸ hrecorded : _ ∧ _).1
  refine ⟨c, tr, r, t, hc, hrun, f, hf, by rw [of_decide_eq_true hthumb]; rfl, ?_⟩
  exact (delete_leaves_nothing_iff plainDeps goInts_plainDeps aliceOnly hc rfl hrun hstorage hf
    hgone).2 (recorded_of_thumbnailRecorded hrecorded)

/-- The update after the thumbnail fails, and the next attempt ends the job.  No task is queued and no
URL can be used any more; everything succeeds when the image is deleted, and its thumbnail is left. -/
theorem thumbnail_left_behind :
    ∃ (c : Services) (tr : List ServiceStep) (r : Reply) (t : Store),
      (services plainDeps).Reaches Machine.sequential (start (Store.fresh aliceOnly)) c ∧
      c.quiet = true ∧ c.store.broker.waiting = [] ∧
      (∀ p ∈ c.store.bucket.presignedPuts, p.2 < c.store.now) ∧
      (services plainDeps).Finishes deleteImage ((services plainDeps).handler deleteImage)
        c.store tr r t ∧ (∀ st ∈ tr, succeeds st = true) ∧
      ∃ f ∈ c.store.db.files, (∀ g ∈ t.db.files, g.id ≠ f.id) ∧
        ∃ key, Owns f.id key ∧ t.bucket.has key = true := by
  obtain ⟨c, hc, hP⟩ := exists_run Machine.sequential
    (uploadImage ++ [.start (.deliver .image imageMessage), .step 2 {}, .step 2 {}, .step 2 {},
      .step 2 { fails := true }, .step 2 {},
      .start (.deliver .image { imageMessage with retried := 1 }), .step 3 {},
      .step 3 { fails := true }, .step 3 {}, .step 3 {}, .env (.tick (20 * minute))])
    (fun c => (c.quiet && c.store.broker.waiting = [] &&
        c.store.bucket.presignedPuts.all fun p => p.2 < c.store.now) &&
      ((services plainDeps).play deleteImage [{}, {}, {}]
        ((services plainDeps).handler deleteImage) c.store).elim false fun x =>
          x.1.all succeeds && thumbnailLeft c.store x.2.2)
    (by decide +kernel)
  rw [Bool.and_eq_true] at hP
  obtain ⟨hidle, hP⟩ := hP
  obtain ⟨tr, r, t, hrun, hP⟩ := Machine.exists_finishes _ _ _ _ (fun tr _ t =>
    tr.all succeeds && thumbnailLeft c.store t) _ hP
  simp only [thumbnailLeft, Bool.and_eq_true, List.all_eq_true, List.any_eq_true,
    decide_eq_true_eq] at hP hidle
  obtain ⟨hsucceeds, f, hf, hgone, hleft⟩ := hP
  exact ⟨c, tr, r, t, hc, hidle.1.1, hidle.1.2, hidle.2, hrun, hsucceeds, f, hf, hgone, _,
    owns_thumbnailKey, hleft⟩

end Optiflow
