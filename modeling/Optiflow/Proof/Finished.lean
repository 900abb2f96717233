import Optiflow.Proof.KnownCalls
import Optiflow.Proof.Rows
import Optiflow.Proof.Runs

/-!
# Finished files

A worker that has finished a file records status `ready` and the keys of what it made.  Every other
write to the row could undo that: a rename or a `complete` saves every column of the struct it read
earlier, and a delivery that comes again may end in a failure.  A run in which each save finds the row
as it was read, and each failure finds an unfinished row, keeps every finished file
(`finished_stays`).
-/

namespace Optiflow

open Interleave UploadSvc Workers

/-! ## The property -/

/-- The row that a worker's success leaves. -/
def recorded : ServiceStep → Option File
  | .call s _ _ (.write (.updateFile id u)) (.ok ()) =>
    if u.status = .ready then (s.db.files.get? id).map u.apply else none
  | _ => none

/-- The status that a request has read in the row whose struct it saves. -/
def statusRead : Request → File → FileStatus
  | .complete _ _, _ => .pending
  | _, f => f.status

/-- A save finds the row with the status and the keys that its request has read. -/
def saveFindsRowAsRead : ServiceStep → Bool
  | .call s q _ (.write (.saveFile f)) _ =>
    s.db.files.rows.any fun g => g.id = f.id && g.status = statusRead q f &&
      g.thumbnailKey = f.thumbnailKey && g.playlistKey = f.playlistKey
  | _ => true

/-- A terminal failure finds the row unfinished. -/
def failureFindsUnfinished : ServiceStep → Bool
  | .call s _ _ (.write (.updateFile id u)) _ =>
    u.status = .ready || s.db.files.rows.all fun g => g.id ≠ id || g.status ≠ .ready
  | _ => true

/-! ## The invariant -/

/-- A task is determined by the file it names. -/
theorem TaskKnown.unique {s : Store} {t t' : Task} (h : TaskKnown s t) (h' : TaskKnown s t')
    (hid : t.payload.fileID = t'.payload.fileID) : t = t' := by
  obtain ⟨b, hb, ht⟩ := h
  obtain ⟨b', hb', ht'⟩ := h'
  obtain rfl : b = b' :=
    Table.eq_of_birth hb hb'
      ((fileID_processingTask ht).symm.trans (hid.trans (fileID_processingTask ht')))
  exact Option.some.inj (ht.symm.trans ht')

/-- The recorded row `g` has not been undone. -/
structure Kept (g : File) (s : Store) : Prop where
  task : ∃ task, TaskKnown s task ∧ task.payload.fileID = g.id ∧ (finishedUpdates task).apply g = g
  rows : ∀ f ∈ s.db.files, f.id = g.id →
    f.status = .ready ∧ f.thumbnailKey = g.thumbnailKey ∧ f.playlistKey = g.playlistKey

section Steps

variable {q : Request} {α : Type} {e : Stmt α} {o : Oracle} {a : α} {s s' : Store} {g : File}

theorem Kept.used (h : Kept g s) : s.db.files.Used g.id := by
  obtain ⟨task, ⟨b, hb, ht⟩, hid, -⟩ := h.task
  exact Table.used_iff.2 ⟨b, hb, (fileID_processingTask ht).symm.trans hid⟩

/-- Only the database matters. -/
theorem Kept.congr (h : Kept g s) (hdb : s'.db = s.db) : Kept g s' := by
  obtain ⟨task, ht, hid, happly⟩ := h.task
  exact ⟨⟨task, ht.mono (.of_db_eq hdb), hid, happly⟩, fun f hf => h.rows f (hdb ▸ hf)⟩

/-- Setting the same columns again changes nothing. -/
theorem apply_finished_keys {u : FileUpdates} {f : File} (hg : u.apply g = g)
    (hthumb : f.thumbnailKey = g.thumbnailKey) (hplay : f.playlistKey = g.playlistKey) :
    (u.apply f).status = g.status ∧ (u.apply f).thumbnailKey = g.thumbnailKey ∧
      (u.apply f).playlistKey = g.playlistKey := by
  simp only [FileUpdates.apply, hthumb, hplay]
  exact ⟨congrArg File.status hg, congrArg File.thumbnailKey hg, congrArg File.playlistKey hg⟩

/-- A call keeps a recorded row. -/
theorem Kept.call (h : Kept g s) (hpre : CallKnown s q e) (hx : exec o e s = some (a, s'))
    (hsave : saveFindsRowAsRead (.call s q o e a) = true)
    (hfail : failureFindsUnfinished (.call s q o e a) = true) : Kept g s' := by
  obtain ⟨task, htask, hid, happly⟩ := h.task
  refine ⟨⟨task, htask.mono (exec_grows hx), hid, happly⟩, fun f hf hfg => ?_⟩
  obtain ⟨r, hr, b, rfl⟩ | hw := file_cases hx hf
  · exact h.rows r hr hfg
  · cases e with
    | write w =>
      cases w with
      | createFile mk =>
        cases a with
        | error e => exact hw.elim
        | ok _ => exact absurd (hfg ▸ h.used) hw.2
      | presignVersion userID root mk =>
        cases a with
        | error e => exact hw.elim
        | ok _ => exact absurd (hfg ▸ h.used) hw.2
      | saveFile f₀ =>
        cases a with
        | error e => exact hw.elim
        | ok _ =>
          obtain rfl : f = s.db.savedRow f₀ := hw
          simp only [DB.id_savedRow] at hfg
          simp only [saveFindsRowAsRead, List.any_eq_true, Bool.and_eq_true,
            decide_eq_true_eq] at hsave
          obtain ⟨r, hr, ⟨⟨hrid, hstatus⟩, hthumb⟩, hplay⟩ := hsave
          obtain ⟨hready, hthumb', hplay'⟩ := h.rows r hr (hrid.trans hfg)
          simp only [DB.status_savedRow, DB.thumbnailKey_savedRow, DB.playlistKey_savedRow]
          refine ⟨?_, hthumb.symm.trans hthumb', hplay.symm.trans hplay'⟩
          obtain ⟨⟨userID, id, rfl⟩ | ⟨userID, id, body, rfl⟩, -⟩ := hpre
          · cases hready.symm.trans hstatus
          · exact hstatus.symm.trans hready
      | updateFile id u =>
        cases a with
        | error e => exact hw.elim
        | ok _ =>
          obtain ⟨r, hr, hrid, rfl⟩ := hw
          have hrg : r.id = g.id := hfg
          obtain ⟨hready, hthumb, hplay⟩ := h.rows r hr hrg
          obtain ⟨worker, msg, -, hmsg, -, hmid, rfl | rfl⟩ := hpre
          · obtain rfl : msg.task = task :=
              hmsg.unique htask (hmid.symm.trans (hrid.symm.trans (hrg.trans hid.symm)))
            refine ⟨by simp [FileUpdates.apply], ?_⟩
            exact (apply_finished_keys happly hthumb hplay).2
          · simp only [failureFindsUnfinished, failedUpdates, List.all_eq_true, Bool.or_eq_true,
              decide_eq_true_eq, reduceCtorEq, decide_false, Bool.false_eq_true, false_or] at hfail
            rcases hfail r hr with hne | hne
            · exact absurd hrid hne
            · exact absurd hready hne
      | _ => cases a <;> exact hw.elim
    | _ => exact hw.elim

/-- A recorded row is kept in the store right after its step. -/
theorem kept_of_recorded (hpre : CallKnown s q e) (hx : exec o e s = some (a, s'))
    (hg : recorded (.call s q o e a) = some g) : Kept g s' := by
  cases e with
  | write w =>
    cases w with
    | updateFile id u =>
      cases a with
      | error e => cases hg
      | ok _ =>
        simp only [recorded] at hg
        split at hg
        · next hu =>
          obtain ⟨r, hr, rfl⟩ := Option.map_eq_some_iff.1 hg
          obtain ⟨hmem, hrid⟩ := Table.get?_eq_some.1 hr
          obtain ⟨worker, msg, -, hmsg, -, hmid, rfl | rfl⟩ := hpre
          · refine ⟨⟨msg.task, hmsg.mono (exec_grows hx), ?_, ?_⟩, fun f hf hfg => ?_⟩
            · exact hmid.symm.trans hrid.symm
            · simp only [FileUpdates.apply]
              cases hthumb : (finishedUpdates msg.task).thumbnailKey <;>
                cases hplay : (finishedUpdates msg.task).playlistKey <;> rfl
            · obtain ⟨db', hw, rfl⟩ := exec_write hx
              obtain ⟨he, -⟩ | ⟨-, rfl⟩ := Write.updateFile_cases hw
              · cases he
              · obtain ⟨f₀, hf₀, rfl⟩ := DB.mem_updateFile.1 hf
                have hf₀id : f₀.id = id := by
                  rw [show f₀.id = (if f₀.id = id then (finishedUpdates msg.task).apply f₀ else f₀).id
                    by split <;> rfl, hfg]
                  exact hrid
                obtain rfl : f₀ = r := Table.eq_of_key hf₀ hmem (hf₀id.trans hrid.symm)
                rw [if_pos hf₀id]
                exact ⟨hu, rfl, rfl⟩
          · cases hu
        · cases hg
    | _ => cases hg
  | _ => cases hg

end Steps

/-! ## Every run -/

/-- **A finished file stays finished**: in every run in which each save finds its row as the request
has read it, and each terminal failure finds its row unfinished, a row keeps the status and the keys
that a worker has recorded. -/
theorem finished_stays (deps : Deps) (users : Table User) {c : Services}
    (h : (services deps).Reaches Machine.anySchedule (start (Store.fresh users)) c)
    (hsave : ∀ st ∈ c.trace, saveFindsRowAsRead st = true)
    (hfail : ∀ st ∈ c.trace, failureFindsUnfinished st = true) :
    ∀ st ∈ c.trace, ∀ g, recorded st = some g → ∀ f ∈ c.store.db.files, f.id = g.id →
      f.status = .ready ∧ f.thumbnailKey = g.thumbnailKey ∧ f.playlistKey = g.playlistKey := by
  suffices key : ∀ st ∈ c.trace, ∀ g, recorded st = some g → Kept g c.store from
    fun st hst g hg => (key st hst g hg).rows
  refine (provenance_valid deps).since (K := fun st s => ∀ g, recorded st = some g → Kept g s)
    (C := fun st => saveFindsRowAsRead st = true ∧ failureFindsUnfinished st = true) h
    (wellFormed_fresh users) (fun _ _ => trivial) (fun st hst => ⟨hsave st hst, hfail st hst⟩) ?_ ?_ ?_
  · rintro q s s' - - - hq
    exact ⟨fun _ hg => (nomatch hg), fun st hK g hg => (hK g hg).congr (launch_cases hq).1⟩
  · rintro q o α e a s s' ⟨hs, hf⟩ - hpre - hx
    exact ⟨fun g hg => kept_of_recorded hpre hx hg, fun st hK g hg => (hK g hg).call hpre hx hs hf⟩
  · rintro v s s' - - - hv
    exact ⟨fun _ hg => (nomatch hg), fun st hK g hg => (hK g hg).congr (env_cases hv).1⟩

/-! ### An image and a rename -/

/-- Alice uploads an image and completes the upload. -/
def uploadImage : List (Move Request Oracle EnvMove) :=
  [.start (.presign 1 (some ⟨lit "a.png", 3, lit "image/png", none⟩)),
    .step 0 {}, .step 0 {}, .step 0 { uuid := 100 }, .step 0 {}, .step 0 {},
    .env (.put (storageKey 1 100 (lit "a.png")) [1, 2, 3]),
    .start (.complete 1 (text 100)), .step 1 {}, .step 1 {}, .step 1 {}, .step 1 {}]

/-- The message of the image's task. -/
def imageMessage : Message := ⟨newImageThumbnailTask ⟨100, storageKey 1 100 (lit "a.png")⟩, 0⟩

/-- Alice renames the image. -/
def renameImage : Request := .updateFile 1 (text 100) (some ⟨some (lit "b.png"), none⟩)

/-- The thumbnail is made, the image renamed, and the task delivered once more. -/
theorem finished_stays_renameImage :
    ∃ c : Services, (services plainDeps).Reaches Machine.anySchedule
      (start (Store.fresh aliceOnly)) c ∧ (c.trace.any fun st => (recorded st).isSome) = true ∧
      ∀ st ∈ c.trace, ∀ g, recorded st = some g → ∀ f ∈ c.store.db.files, f.id = g.id →
        f.status = .ready ∧ f.thumbnailKey = g.thumbnailKey ∧ f.playlistKey = g.playlistKey := by
  obtain ⟨c, hc, hP⟩ := exists_run Machine.anySchedule
    (uploadImage ++ [.start (.deliver .image imageMessage), .step 2 {}, .step 2 {}, .step 2 {},
      .step 2 {}, .start renameImage, .step 3 {}, .step 3 {}, .env (.redeliver imageMessage),
      .start (.deliver .image imageMessage), .step 4 {}, .step 4 {}, .step 4 {}, .step 4 {}])
    (fun c => (c.trace.any fun st => (recorded st).isSome) &&
      c.trace.all fun st => saveFindsRowAsRead st && failureFindsUnfinished st)
    (by decide)
  simp only [Bool.and_eq_true, List.all_eq_true] at hP
  exact ⟨c, hc, hP.1, finished_stays plainDeps aliceOnly hc (fun st hst => (hP.2 st hst).1)
    fun st hst => (hP.2 st hst).2⟩

/-- A rename that has read the row before the thumbnail was recorded saves it after. -/
theorem finished_undone :
    ∃ c : Services, (services plainDeps).Reaches Machine.anySchedule
      (start (Store.fresh aliceOnly)) c ∧ (∀ st ∈ c.trace, succeeds st = true) ∧
      ∃ st ∈ c.trace, ∃ g, recorded st = some g ∧ g.thumbnailKey.isSome = true ∧
        ∃ f ∈ c.store.db.files, f.id = g.id ∧ f.status = .processing ∧ f.thumbnailKey = none := by
  obtain ⟨c, hc, hP⟩ := exists_run Machine.anySchedule
    (uploadImage ++ [.start renameImage, .step 2 {}, .start (.deliver .image imageMessage),
      .step 3 {}, .step 3 {}, .step 3 {}, .step 3 {}, .step 2 {}])
    (fun c => c.trace.all succeeds && c.trace.any fun st => (recorded st).any fun g =>
      g.thumbnailKey.isSome && c.store.db.files.rows.any fun f =>
        f.id = g.id && f.status = .processing && f.thumbnailKey = none)
    (by decide)
  simp only [Bool.and_eq_true, List.all_eq_true, List.any_eq_true, Option.any_eq_true,
    decide_eq_true_eq] at hP
  obtain ⟨hs, st, hst, g, hg, hthumb, f, hf, ⟨hid, hp⟩, hnone⟩ := hP
  exact ⟨c, hc, hs, st, hst, g, hg, hthumb, f, hf, hid, hp, hnone⟩

end Optiflow
