import Optiflow.Lib.LevelWalk
import Optiflow.Proof.Sequential

/-!
# Browsing

A client walks a user's tree with `listFolders` and `listFiles`, from the root to the children of
every folder it is shown.  A tidy tree is shown completely and without repetition
(`DB.Tidy.browsable`), so this holds when requests run one at a time and every restored version and
every finished upload goes to a folder that exists (`browsing_reaches_all`).
-/

namespace Optiflow

open Interleave ParentGraph LevelWalk UploadSvc ApiSvc

/-! ## The property -/

/-- The query parameter that asks for a level. -/
def levelParam : Option UUID → GoString
  | none => []
  | some id => UUID.string id

section Walk

variable (deps : Deps) (s : Store) (userID : UUID)

/-- What `listFolders` shows of a level. -/
def listedFolders (level : Option UUID) : List Folder :=
  match (services deps).alone {} ((services deps).handler (.listFolders userID (levelParam level))) s with
  | some (.folders fs, _) => fs
  | _ => []

/-- What `listFiles` shows of a level. -/
def listedFiles (level : Option UUID) : List File :=
  match (services deps).alone {} ((services deps).handler (.listFiles userID (levelParam level))) s with
  | some (.files fs, _) => fs
  | _ => []

/-- The levels that a walk has come to in `n` rounds. -/
def walked (n : ℕ) : List (Option UUID) := visited Folder.id (listedFolders deps s userID) n

/-- Browsing ends; it shows every folder of the user and every current file, each once.  Each lineage
has one current row, and it lies in a folder of the user. -/
structure Browsable : Prop where
  walk : ∃ n, round Folder.id (listedFolders deps s userID) n = [] ∧
    ((walked deps s userID n).flatMap (listedFolders deps s userID)).Nodup ∧
    (∀ f, f ∈ (walked deps s userID n).flatMap (listedFolders deps s userID) ↔
      f ∈ s.db.folders ∧ f.userID = userID) ∧
    ((walked deps s userID n).flatMap (listedFiles deps s userID)).Nodup ∧
    ∀ f, f ∈ (walked deps s userID n).flatMap (listedFiles deps s userID) ↔
      f ∈ s.db.files ∧ f.userID = userID ∧ f.isCurrent = true
  current : ∀ f ∈ s.db.files, f.userID = userID →
    ∃! g, g ∈ s.db.lineageFiles userID f.lineageRootID ∧ g.isCurrent = true
  folder : ∀ f ∈ s.db.files, f.userID = userID → f.isCurrent = true →
    s.db.hasFolder userID f.folderID = true

end Walk

/-! ## The listings -/

section Listings

variable {deps : Deps} {s : Store} {userID : UUID}

/-- The parameter of a level is read as the level. -/
theorem queryID_levelParam (level : Option UUID) (message : String) (k : Option UUID → Prog Stmt Reply) :
    queryID (levelParam level) message k = k level := by
  cases level with
  | none => rfl
  | some id =>
    have hne : UUID.string id ≠ [] := fun h => by simpa [h] using UUID.length_string id
    show queryID (UUID.string id) message k = k (some id)
    rw [queryID, if_neg hne, parseID, UUID.parse_string]
    rfl

theorem listedFolders_eq (level : Option UUID) : listedFolders deps s userID level =
    (s.db.childFolders userID level).insertionSort fun f g => f.name ≤ g.name := by
  simp only [listedFolders, services_handler, Request.handler, listFolders, Code.bind_apply,
    queryID_levelParam]
  rfl

theorem listedFiles_eq (level : Option UUID) : listedFiles deps s userID level =
    (s.db.currentFiles userID level).insertionSort fun f g => f.name ≤ g.name := by
  simp only [listedFiles, services_handler, Request.handler, listFiles, Code.bind_apply,
    queryID_levelParam]
  rfl

/-- `listFolders` lists the user's folders by their parent. -/
theorem lists_listedFolders : Lists {f | f ∈ s.db.folders ∧ f.userID = userID} Folder.parentID
    (listedFolders deps s userID) := by
  constructor
  · intro l
    rw [listedFolders_eq]
    exact (List.perm_insertionSort _ _).nodup_iff.2 ((List.Nodup.of_map _ s.db.folders.nodup).filter _)
  · intro l f
    rw [listedFolders_eq, List.mem_insertionSort]
    simp [DB.childFolders, Table.mem_def, and_assoc]

/-- `listFiles` lists the user's current files by their folder. -/
theorem lists_listedFiles :
    Lists {f | f ∈ s.db.files ∧ f.userID = userID ∧ f.isCurrent = true} File.folderID
      (listedFiles deps s userID) := by
  constructor
  · intro l
    rw [listedFiles_eq]
    exact (List.perm_insertionSort _ _).nodup_iff.2 ((List.Nodup.of_map _ s.db.files.nodup).filter _)
  · intro l f
    rw [listedFiles_eq, List.mem_insertionSort]
    simp [DB.currentFiles, Table.mem_def, and_assoc]

end Listings

/-! ## A tidy tree -/

section Tidy

variable {s : Store} {userID : UUID}

/-- Every level that exists lies at some depth. -/
theorem DB.Tidy.atDepth {db : DB} (h : db.Tidy) {level : Option UUID}
    (hlevel : db.hasFolder userID level = true) :
    ∃ n, AtDepth {f | f ∈ db.folders ∧ f.userID = userID} Folder.id Folder.parentID n level := by
  -- A folder of the user lies below its parent, and the climb through the parents ends.
  have folder : ∀ id, Grounded db.parentOf id → ∀ f ∈ db.folders, f.id = id → f.userID = userID →
      ∃ n, AtDepth {f | f ∈ db.folders ∧ f.userID = userID} Folder.id Folder.parentID n (some id) := by
    intro id hid
    induction hid with
    | @root id hup =>
      rintro f hf rfl huser
      rw [DB.parentOf_of_mem hf] at hup
      exact ⟨1, .under ⟨hf, huser⟩ (hup ▸ .top)⟩
    | @step id p hup _ ih =>
      rintro f hf rfl huser
      rw [DB.parentOf_of_mem hf] at hup
      obtain ⟨g, hg, hgid, hguser⟩ := DB.hasFolder_some.1 (hup ▸ h.parents f hf)
      obtain ⟨n, hn⟩ := ih g hg hgid (hguser.trans huser)
      exact ⟨n + 1, .under ⟨hf, huser⟩ (hup ▸ hn)⟩
  cases level with
  | none => exact ⟨0, .top⟩
  | some id =>
    obtain ⟨f, hf, hid, huser⟩ := DB.hasFolder_some.1 hlevel
    exact folder id (h.grounded id) f hf hid huser

theorem DB.Tidy.browsable (deps : Deps) (hs : WellFormed s) (h : s.db.Tidy) (userID : UUID) :
    Browsable deps s userID := by
  have hid : Set.InjOn Folder.id {f | f ∈ s.db.folders ∧ f.userID = userID} :=
    fun f hf g hg hfg => Table.eq_of_key hf.1 hg.1 hfg
  have hlist : Lists _ _ (listedFolders deps s userID) := lists_listedFolders
  have hfinite : {f | f ∈ s.db.folders ∧ f.userID = userID}.Finite :=
    (List.finite_toSet s.db.folders.rows).subset fun f hf => hf.1
  have hfolders : ∀ f ∈ {f | f ∈ s.db.folders ∧ f.userID = userID}, ∃ n, AtDepth
      {f | f ∈ s.db.folders ∧ f.userID = userID} Folder.id Folder.parentID n f.parentID := by
    rintro f ⟨hf, rfl⟩
    exact h.atDepth (h.parents f hf)
  have hfiles : ∀ f ∈ {f | f ∈ s.db.files ∧ f.userID = userID ∧ f.isCurrent = true}, ∃ n, AtDepth
      {f | f ∈ s.db.folders ∧ f.userID = userID} Folder.id Folder.parentID n f.folderID := by
    rintro f ⟨hf, rfl, hcur⟩
    exact h.atDepth (h.files f hf hcur)
  obtain ⟨n, hn, hdepth⟩ := exists_round_eq_nil hid hlist hfinite hfolders
  obtain ⟨hnodup, hmem⟩ := hlist.walk hid hlist hdepth hfolders
  obtain ⟨hnodup', hmem'⟩ := lists_listedFiles.walk hid hlist hdepth hfiles
  refine ⟨⟨n, hn, hnodup, hmem, hnodup', hmem'⟩, fun f hf huser => ?_, fun f hf huser hcur => ?_⟩
  · exact huser ▸ (h.lineages.lineageShape hs hf).current
  · exact huser ▸ h.files f hf hcur

end Tidy

/-- **No file becomes unreachable by browsing**: when requests run one at a time, every restored
version lies in a folder that exists and every finished upload goes to one, each user can browse to
all that is theirs. -/
theorem browsing_reaches_all (deps : Deps) (users : Table User) {c : Services}
    (h : (services deps).Reaches Machine.sequential (start (Store.fresh users)) c)
    (hrestore : ∀ st ∈ c.trace, restoredFolderHere st = true)
    (hfinish : ∀ st ∈ c.trace, finishedFolderHere st = true) (userID : UUID) :
    Browsable deps c.store userID := by
  have h₀ : (Store.fresh users).db.Tidy :=
    { lineages := lineages_fresh users
      grounded := fun _ => .root rfl
      parents := fun _ hf => absurd hf Table.not_mem_empty
      files := fun _ hf => absurd hf Table.not_mem_empty }
  have hwf := wellFormed_fresh users
  obtain ⟨⟨hs, -, htidy⟩, -⟩ := (tidy_seqValid deps).good h (Outline.good_init ⟨hwf, hwf, h₀⟩)
    (Outline.oneRunning_init _) fun st hst => ⟨trivial, hrestore st hst, hfinish st hst⟩
  exact htidy.browsable deps hs userID

/-! ### A version restored into a folder -/

/-- Alice creates a folder and uploads a text to it, and then a new version of the text. -/
def uploadToFolder : List (Move Request Oracle EnvMove) :=
  [.start (.createFolder 1 (some ⟨lit "A", none⟩)), .step 0 { uuid := 200 },
    .start (.presign 1 (some ⟨lit "a.txt", 3, lit "text/plain", some (text 200)⟩)),
    .step 1 {}, .step 1 {}, .step 1 {}, .step 1 { uuid := 100 }, .step 1 {}, .step 1 {},
    .start newVersion, .step 2 {}, .step 2 {}, .step 2 {}, .step 2 {}, .step 2 {},
    .step 2 { uuid := 101 }, .step 2 {}, .step 2 {}]

/-- The first version is restored into the folder. -/
def restoreFirst (i : ℕ) : List (Move Request Oracle EnvMove) :=
  [.start (.restoreFileVersion 1 (text 101) (text 100)), .step i {}, .step i {}, .step i {}]

theorem browsing_reaches_all_restore :
    ∃ c : Services, (services plainDeps).Reaches Machine.sequential
      (start (Store.fresh aliceOnly)) c ∧
      (c.store.db.files.rows.any fun f => f.id = 100 && f.isCurrent) = true ∧
      Browsable plainDeps c.store 1 := by
  obtain ⟨c, hc, hP⟩ := exists_run Machine.sequential (uploadToFolder ++ restoreFirst 3)
    (fun c => (c.store.db.files.rows.any fun f => f.id = 100 && f.isCurrent) &&
      c.trace.all fun st => restoredFolderHere st && finishedFolderHere st)
    (by decide)
  simp only [Bool.and_eq_true, List.all_eq_true] at hP
  exact ⟨c, hc, hP.1, browsing_reaches_all plainDeps aliceOnly hc (fun st hst => (hP.2 st hst).1)
    (fun st hst => (hP.2 st hst).2) 1⟩

/-- The new version is moved to the root, the folder is deleted, and the first version restored. -/
theorem browsing_misses_restored :
    ∃ c : Services, (services plainDeps).Reaches Machine.sequential
      (start (Store.fresh aliceOnly)) c ∧ (∀ st ∈ c.trace, succeeds st = true) ∧
      c.quiet = true ∧ ¬Browsable plainDeps c.store 1 := by
  obtain ⟨c, hc, hP⟩ := exists_run Machine.sequential
    (uploadToFolder ++ [.start (.updateFile 1 (text 101) (some ⟨none, some []⟩)), .step 3 {},
      .step 3 {}, .start (.deleteFolder 1 (text 200)), .step 4 {}, .step 4 { fuel := 3 }] ++
      restoreFirst 5)
    (fun c => c.trace.all succeeds && (c.quiet && c.store.db.files.rows.any fun f =>
      f.userID = 1 && f.isCurrent && !c.store.db.hasFolder 1 f.folderID))
    (by decide)
  simp only [Bool.and_eq_true, List.all_eq_true, List.any_eq_true, decide_eq_true_eq,
    Bool.not_eq_true'] at hP
  obtain ⟨hs, hquiet, f, hf, ⟨huser, hcur⟩, hgone⟩ := hP
  refine ⟨c, hc, hs, hquiet, fun h => ?_⟩
  exact Bool.false_ne_true (hgone.symm.trans (h.folder f hf huser hcur))

end Optiflow
