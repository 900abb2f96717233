import Optiflow.Lib.Transaction
import Optiflow.Model.Database

/-!
# The transaction that deletes a folder

`deleteFolderRecursive`, statement by statement.  Each statement may fail, which ends the transaction;
`DB.deleteFolderTree` is what it does when none does (`does_deleteFolderTree`).
-/

namespace Optiflow

namespace ApiSvc

/-- `lineageFiles`, inside a transaction. -/
def lineageFiles (userID root : UUID) : Tx DbError DB (List File) :=
  Tx.select fun db => db.lineageFiles userID root

/-- The versions of the files, behind those collected so far. -/
def collectVersions (userID : UUID) (deleted : List File) (currentFiles : List File) :
    Tx DbError DB (List File × List UUID) :=
  currentFiles.foldlM (fun acc f => do
    let versions ← lineageFiles userID f.lineageRootID
    pure (acc.1 ++ versions, acc.2 ++ versions.map File.id)) (deleted, [])

/-- Delete the shares of the files, and the files. -/
def deleteFiles (userID : UUID) (fileIDs : List UUID) : Tx DbError DB Unit :=
  if 0 < fileIDs.length then do
    Tx.exec fun db => db.deleteShares fun s => s.fileID ∈ fileIDs && s.userID = userID
    Tx.exec fun db => { db with files := db.files.delete fun f => f.id ∈ fileIDs && f.userID = userID }
  else pure ()

/-- The recursion has no bound of its own: it does not return when `fuel` never suffices. -/
def deleteFolderTree (userID : UUID) : ℕ → UUID → Tx DbError DB (List File)
  | 0, _ => Tx.loop
  | fuel + 1, folderID => do
    let children ← Tx.select fun db => db.childFolders userID (some folderID)
    let deleted ← children.foldlM (fun deleted child => do
      let childDeleted ← deleteFolderTree userID fuel child.id
      pure (deleted ++ childDeleted)) []
    let currentFiles ← Tx.select fun db => db.currentFiles userID (some folderID)
    let collected ← collectVersions userID deleted currentFiles
    deleteFiles userID collected.2
    Tx.exec fun db => db.deleteFolderRow userID folderID
    pure collected.1

/-- What the transaction answers, the number of its statements, and what it leaves; `fault n` is the
error of its `n`-th statement. -/
def deleteFolderRecursive (fault : ℕ → Option DbError) (fuel : ℕ) (userID folderID : UUID) (db : DB) :
    Option (Except DbError (List File) × ℕ × DB) :=
  (deleteFolderTree userID fuel folderID).transaction fault db

/-! ## Without failures -/

theorem does_lineageFiles (userID root : UUID) :
    (lineageFiles userID root).Does fun db => some (db.lineageFiles userID root, db) :=
  Tx.does_statement _

theorem does_collectVersions (userID : UUID) (deleted currentFiles : List File) :
    (collectVersions userID deleted currentFiles).Does fun db =>
      some ((deleted ++ currentFiles.flatMap fun f => db.lineageFiles userID f.lineageRootID,
        (currentFiles.flatMap fun f => db.lineageFiles userID f.lineageRootID).map File.id), db) := by
  have hfold := Tx.does_foldlM (ε := DbError) (fun (acc : List File × List UUID) (f : File) =>
    (does_lineageFiles userID f.lineageRootID).bind fun versions =>
      Tx.does_pure (acc.1 ++ versions, acc.2 ++ versions.map File.id)) currentFiles (deleted, [])
  refine hfold.congr fun db => ?_
  -- The loop appends, so it is generalised over what it starts with.
  have key : ∀ (l : List File) (acc : List File × List UUID),
      l.foldlM (fun (r : (List File × List UUID) × DB) f =>
        (some (r.2.lineageFiles userID f.lineageRootID, r.2)).bind fun v =>
          some ((r.1.1 ++ v.1, r.1.2 ++ v.1.map File.id), v.2)) (acc, db) =
        some ((acc.1 ++ l.flatMap fun f => db.lineageFiles userID f.lineageRootID,
          acc.2 ++ (l.flatMap fun f => db.lineageFiles userID f.lineageRootID).map File.id), db) := by
    intro l
    induction l with
    | nil => simp
    | cons f l ih =>
      intro acc
      rw [List.foldlM_cons]
      refine (ih _).trans ?_
      simp [List.append_assoc]
  exact (key currentFiles (deleted, [])).symm

theorem does_deleteFiles (userID : UUID) (fileIDs : List UUID) :
    (deleteFiles userID fileIDs).Does fun db =>
      some ((), if 0 < fileIDs.length then db.deleteFiles userID fileIDs else db) := by
  refine (Tx.does_ite ((Tx.does_statement _).bind fun _ => Tx.does_statement _)
    (Tx.does_pure ())).congr fun db => ?_
  by_cases hlen : 0 < fileIDs.length
  · rw [if_pos hlen, if_pos hlen]
    rfl
  · rw [if_neg hlen, if_neg hlen]

/-- **Without failures the transaction is `DB.deleteFolderTree`.** -/
theorem does_deleteFolderTree (userID : UUID) (fuel : ℕ) (folderID : UUID) :
    (deleteFolderTree userID fuel folderID).Does fun db => db.deleteFolderTree fuel userID folderID := by
  induction fuel generalizing folderID with
  | zero => exact Tx.does_loop
  | succ fuel ih =>
    refine Tx.Does.congr ((Tx.does_statement _).bind fun children => (Tx.does_foldlM (fun deleted child =>
      (ih child.id).bind fun d => Tx.does_pure (deleted ++ d)) children []).bind fun deleted =>
      (Tx.does_statement _).bind fun currentFiles =>
      (does_collectVersions userID deleted currentFiles).bind fun collected =>
      (does_deleteFiles userID collected.2).bind fun _ => (Tx.does_statement _).bind fun _ =>
      Tx.does_pure collected.1) fun db => ?_
    rw [DB.deleteFolderTree]
    rfl

end ApiSvc

end Optiflow
