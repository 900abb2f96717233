import Optiflow.Lib.ParentGraph
import Optiflow.Proof.KnownCalls
import Optiflow.Proof.Runs
import Mathlib.Data.Fintype.EquivFin

/-!
# The folder graph

Each folder points at its parent.  A rename or a move saves a parent that was read, or checked with
`isDescendant`, some statements earlier, and concurrent moves can close a cycle.  As long as nobody
else's move undoes what a request has read or walked before its save, the climb from every folder ends
(`folders_end`), and then so do the loop of `isDescendant` and the recursion of `deleteFolderTree`.
-/

namespace Optiflow

open Interleave ParentGraph ApiSvc

/-! ## The property -/

/-- The `parent_id` of a folder row; a missing row has none. -/
def DB.parentOf (db : DB) (id : UUID) : Option UUID := (db.folders.get? id).bind Folder.parentID

/-- The `parent_id` of a folder of the user; no other row counts. -/
def DB.ownParent (db : DB) (userID id : UUID) : Option UUID :=
  (db.folders.get? id).bind fun f => if f.userID = userID then f.parentID else none

/-- The climb from a folder passes another one. -/
def DB.climbsTo (db : DB) (id folderID : UUID) : Bool :=
  climbsWithin db.parentOf (db.folders.rows.length + 1) id folderID

/-- What `updateFolder` has found out.  On its walk to `current`: if the new parent climbs to the folder,
then so does `current`.  Before its save: the parent that it saves does not climb to the folder. -/
def updateFolderKnows (th : Thread Request Stmt Reply) (s : Store) : Bool :=
  match th.origin, th.prog with
  | .updateFolder _ id (some req) _, .call (.query (.folderParent current _)) _ =>
    match UUID.parse id, req.parentID.bind UUID.parse with
    | some id, some parentID => !s.db.climbsTo parentID id || s.db.climbsTo current id
    | _, _ => true
  | .updateFolder _ _ _ _, .call (.write (.saveFolder f)) _ =>
    f.parentID.all fun p => !s.db.climbsTo p f.id
  | _, _ => true

/-- From its reads to its save, `updateFolder` relies on what it has found out. -/
def folderWatch (deps : Deps) : Watch (services deps) := .ofFact (services deps) updateFolderKnows

namespace DB

variable {db db' : DB}

theorem parentOf_eq_some {id p : UUID} :
    db.parentOf id = some p ↔ ∃ f ∈ db.folders, f.id = id ∧ f.parentID = some p := by
  simp only [parentOf, Option.bind_eq_some_iff, Table.get?_eq_some, key_folder]
  constructor
  · rintro ⟨f, ⟨hf, hid⟩, hp⟩
    exact ⟨f, hf, hid, hp⟩
  · rintro ⟨f, hf, hid, hp⟩
    exact ⟨f, ⟨hf, hid⟩, hp⟩

theorem parentOf_of_mem {f : Folder} (h : f ∈ db.folders) : db.parentOf f.id = f.parentID := by
  rw [parentOf, ← key_folder, Table.get?_of_mem h]
  rfl

/-- The bound of `climbsTo` is enough: only folders point at something. -/
theorem climbsTo_iff (h : ∀ z, Grounded db.parentOf z) {x y : UUID} :
    db.climbsTo x y = true ↔ Climbs db.parentOf x y := by
  have hends := (h x).ascend_eq_none (l := db.folders.rows.map key) fun z _ hz => by
    obtain ⟨p, hp⟩ := Option.ne_none_iff_exists'.1 hz
    obtain ⟨f, hf, rfl, -⟩ := parentOf_eq_some.1 hp
    exact List.mem_map_of_mem hf
  rw [List.length_map] at hends
  exact climbsWithin_iff hends

/-- Writing a folder row sets its pointer. -/
theorem parentOf_update (db : DB) {db' : DB} {f : Folder}
    (h : ∀ g, g ∈ db'.folders ↔ g = f ∨ (g ∈ db.folders ∧ g.id ≠ f.id)) :
    db'.parentOf = Function.update db.parentOf f.id f.parentID := by
  funext id
  rw [parentOf, Table.get?_of_mem_iff (r := f) h, key_folder, Function.update_apply]
  split
  · rfl
  · rfl

section Own

variable {userID : UUID}

theorem ownParent_of_mem {f : Folder} (h : f ∈ db.folders) (huser : f.userID = userID) :
    db.ownParent userID f.id = f.parentID := by
  rw [ownParent, ← key_folder, Table.get?_of_mem h, Option.bind_some, if_pos huser]

theorem ownParent_eq_some {id p : UUID} :
    db.ownParent userID id = some p ↔
      ∃ f ∈ db.folders, f.id = id ∧ f.userID = userID ∧ f.parentID = some p := by
  constructor
  · intro h
    simp only [ownParent, Option.bind_eq_some_iff, Table.get?_eq_some, key_folder] at h
    obtain ⟨f, ⟨hf, hid⟩, h⟩ := h
    split at h
    · next huser => exact ⟨f, hf, hid, huser, h⟩
    · cases h
  · rintro ⟨f, hf, rfl, huser, hp⟩
    rw [ownParent_of_mem hf huser, hp]

/-- Saving a folder of the user sets its pointer. -/
theorem ownParent_save {f : Folder} (huser : f.userID = userID) :
    ({ db with folders := db.folders.save f } : DB).ownParent userID =
      Function.update (db.ownParent userID) f.id f.parentID := by
  funext id
  rw [ownParent, Table.get?_of_mem_iff (r := f) (t := db.folders) fun g => Table.mem_save,
    key_folder, Function.update_apply]
  split
  · rw [Option.bind_some, if_pos huser]
  · rfl

theorem parentOf_of_ownParent {a b : UUID} (h : db.ownParent userID a = some b) :
    db.parentOf a = some b := by
  obtain ⟨f, hf, hid, -, hp⟩ := ownParent_eq_some.1 h
  exact parentOf_eq_some.2 ⟨f, hf, hid, hp⟩

end Own

theorem Shrinks.parentOf_le (h : Shrinks db db') {a b : UUID} (hab : db'.parentOf a = some b) :
    db.parentOf a = some b := by
  obtain ⟨f, hf, hid, hp⟩ := parentOf_eq_some.1 hab
  exact parentOf_eq_some.2 ⟨f, h.folders f hf, hid, hp⟩

end DB

/-! ## Every run -/

variable {s : Store}

/-- The climb from a folder that was born passes only such folders. -/
theorem WellFormed.used_of_climbs (h : WellFormed s) {p z : UUID} (hp : s.db.folders.Used p)
    (hz : Climbs s.db.parentOf p z) : s.db.folders.Used z := by
  induction hz with
  | refl => exact hp
  | tail _ hstep _ =>
    obtain ⟨f, hf, -, hfp⟩ := DB.parentOf_eq_some.1 hstep
    exact ((h.folder f hf).2 _ hfp).used

/-- A folder is saved under a parent that does not climb to it. -/
def SavesUnder (db : DB) {α : Type} : Stmt α → Prop
  | .write (.saveFolder f) => ∀ p, f.parentID = some p → ¬Climbs db.parentOf p f.id
  | _ => True

/-- A write keeps the graph grounded, a save when it is one under its parent. -/
theorem grounded_write (h : WellFormed s) {q : Request} {α : Type} {w : Write α} {o : Oracle}
    {a : Except DbError α} {db' : DB} (hg : ∀ z, Grounded s.db.parentOf z) (hw : WriteKnown s q w)
    (hmove : SavesUnder s.db (.write w)) (hrun : w.run o s.issued s.db = some (a, db')) : ∀ z, Grounded db'.parentOf z := by
  cases w with
  | createFolder name userID parentID =>
    obtain ⟨-, rfl⟩ | ⟨hu, -, rfl⟩ := Write.createFolder_cases hrun
    · exact hg
    · have hmem : ∀ g, g ∈ s.db.folders.insert ⟨o.uuid, name, userID, parentID⟩ hu ↔
          g = ⟨o.uuid, name, userID, parentID⟩ ∨ (g ∈ s.db.folders ∧ g.id ≠ o.uuid) := by
        intro g
        rw [Table.mem_insert hu]
        refine or_congr_right ⟨fun hgm => ⟨hgm, fun he => hu ?_⟩, And.left⟩
        exact show s.db.folders.Used o.uuid from he ▸ Table.used_of_mem hgm
      rw [DB.parentOf_update s.db hmem]
      exact grounded_update hg fun p hp hclimb =>
        hu (h.used_of_climbs (hw.2 p hp).used hclimb)
  | saveFolder f =>
    obtain ⟨-, rfl⟩ | ⟨-, rfl⟩ := Write.saveFolder_cases hrun
    · exact hg
    · rw [DB.parentOf_update s.db (f := f) fun g => Table.mem_save]
      exact grounded_update hg hmove
  | deleteFolder userID folderID =>
    obtain ⟨-, rfl⟩ | ⟨versions, -, hd⟩ := Write.deleteFolder_cases hrun
    · exact hg
    · exact fun z => (hg z).mono fun a b => (DB.shrinks_deleteFolderTree hd).parentOf_le
  | _ =>
    obtain ⟨files, shares, tokens, rfl⟩ := Write.leaves_folders rfl hrun
    exact hg

/-! ## Moves under the watch -/

/-- The outline of the folder graph. -/
def folderTree (deps : Deps) : Outline (services deps) where
  inv s := ∀ z, Grounded s.db.parentOf z
  rely _ _ := True
  pre _ _ e s := SavesUnder s.db e
  post _ _ := True
  cond _ := True

section Watched

variable {deps : Deps} {q : Request}

/-- Reading a program against `folderTree`. -/
abbrev Under (deps : Deps) (q : Request) (p : Prog Stmt Reply) (s : Store) : Prop :=
  (folderTree deps).SafeOver (provenance deps) (folderWatch deps) q p s

theorem under_answer (q : Request) (s : Store) (status : ℕ) (message : String) :
    Under deps q (.ret (.error status message)) s := trivial

/-- What the others have kept by the next call. -/
theorem knows_of_interference {p : Prog Stmt Reply} {t : Store}
    (ht : (folderTree deps).Interference (provenance deps) (folderWatch deps) ⟨q, p⟩ s t)
    (hs : updateFolderKnows ⟨q, p⟩ s = true) : updateFolderKnows ⟨q, p⟩ t = true :=
  Watch.ofFact_kept ht.kept hs

variable {userID id parentID : UUID} {idText : GoString} {req : FolderRequest} {steps : ℕ}

/-- What the walk has found out holds at its next look-up. -/
theorem walked_of_interference (hq : q = .updateFolder userID idText (some req) steps)
    (hid : UUID.parse idText = some id) (hparent : req.parentID.bind UUID.parse = some parentID)
    {current : UUID} {k : Except DbError (Option UUID) → Prog Stmt Reply} {t : Store}
    (ht : (folderTree deps).Interference (provenance deps) (folderWatch deps)
      ⟨q, .call (.query (.folderParent current userID)) k⟩ s t)
    (hs : s.db.climbsTo parentID id = true → s.db.climbsTo current id = true)
    (hclimbs : t.db.climbsTo parentID id = true) : t.db.climbsTo current id = true := by
  have hknows : ∀ u : Store,
      updateFolderKnows ⟨q, .call (.query (.folderParent current userID)) k⟩ u =
        (!u.db.climbsTo parentID id || u.db.climbsTo current id) := fun u => by
    simp [updateFolderKnows, hq, hid, hparent]
  have hkept := knows_of_interference ht (by
    rw [hknows]
    cases hc : s.db.climbsTo parentID id with
    | false => rfl
    | true => simp [hs hc])
  rw [hknows, hclimbs] at hkept
  simpa using hkept

/-- A save whose parent does not climb to the folder, and nobody changes that. -/
theorem under_saveFolder (hq : q = .updateFolder userID idText (some req) steps) {f : Folder}
    (hs : ∀ p, f.parentID = some p → s.db.climbsTo p f.id = false) :
    Under deps q (write (.saveFolder f) fun a => foundOr 500 "could not update folder" a
      fun _ => .ret (.folder 200 f)) s := by
  refine watched_write (fun t ht _ p hp hclimb => ?_) fun a t _ _ _ => ?_
  · have hknows : ∀ u : Store, updateFolderKnows ⟨q, .call (.write (.saveFolder f)) fun a =>
        foundOr 500 "could not update folder" a fun _ => .ret (.folder 200 f)⟩ u =
          !u.db.climbsTo p f.id := fun u => by simp [updateFolderKnows, hq, hp]
    have hkept := knows_of_interference ht (by simp [hknows, hs p hp])
    rw [hknows, (DB.climbsTo_iff ht.inv).2 hclimb] at hkept
    cases hkept
  · exact Early.foundOr (P := fun p => Under deps q p _) (under_answer q _) fun _ _ => trivial

/-- The walk answers false only when the new parent does not climb to the folder. -/
theorem under_isDescendant (hq : q = .updateFolder userID idText (some req) steps)
    (hid : UUID.parse idText = some id) (hparent : req.parentID.bind UUID.parse = some parentID)
    {k : Except DbError Bool → Prog Stmt Reply}
    (h : ∀ a (t : Store), (a = .ok false → t.db.climbsTo parentID id = false) → Under deps q (k a) t) :
    ∀ (n : ℕ) (current : UUID) (s : Store), FolderIDKnown s userID current →
      (s.db.climbsTo parentID id = true → s.db.climbsTo current id = true) →
      Under deps q (isDescendant userID id n current k) s
  | 0, _, _, _, _ => trivial
  | n + 1, current, s, hcurrent, hwalked => by
    unfold isDescendant
    rw [Code.ite_run]
    split
    · exact h (.ok true) s fun he => by cases he
    · next hne =>
      refine watched_query (fun _ _ _ => trivial) fun o t ht _ => ?_
      have hclimbs : t.db.climbsTo parentID id = true → ∃ p, t.db.parentOf current = some p ∧
          t.db.climbsTo p id = true := by
        intro hp
        have hcur := walked_of_interference hq hid hparent ht hwalked hp
        obtain he | ⟨p, hp, hpid⟩ := climbs_cases ((DB.climbsTo_iff ht.inv).1 hcur)
        · exact absurd he.symm hne
        · exact ⟨p, hp, (DB.climbsTo_iff ht.inv).2 hpid⟩
      have hstop : t.db.parentOf current = none → t.db.climbsTo parentID id = false := by
        intro hnone
        refine Bool.eq_false_iff.2 fun hp => ?_
        obtain ⟨p, hp, -⟩ := hclimbs hp
        cases hnone.symm.trans hp
      have hknown : FolderIDKnown t userID current := hcurrent.mono ht.base
      cases ha : (Query.folderParent current userID).run o t.db with
      | error e =>
        cases e with
        | recordNotFound =>
          refine h (.ok false) t fun _ => hstop ?_
          cases hp : t.db.parentOf current with
          | none => rfl
          | some p =>
            obtain ⟨f, hf, hfid, -⟩ := DB.parentOf_eq_some.1 hp
            have huser : f.userID = userID := ((ht.baseInv.folder f hf).1).user_eq (hfid ▸ hknown)
            exact absurd huser (Query.folderParent_notFound ha hf hfid)
        | other => exact h (.error .other) t fun he => by cases he
      | ok p =>
        obtain ⟨f, hf, hfid, huser, hp⟩ := Query.folderParent_ok ha
        have hparentOf : t.db.parentOf current = p := by
          rw [← hfid, DB.parentOf_of_mem hf, hp]
        cases p with
        | none => exact h (.ok false) t fun _ => hstop hparentOf
        | some p =>
          refine under_isDescendant hq hid hparent h n p t ?_ fun hp' => ?_
          · exact huser ▸ (ht.baseInv.folder f hf).2 p hp
          · obtain ⟨p', hup, hclimb⟩ := hclimbs hp'
            obtain rfl : p = p' := Option.some.inj (hparentOf.symm.trans hup)
            exact hclimb

/-- The folder is one that was read as `r`, perhaps with a new name; what is done with its parent is
checked. -/
theorem under_moveFolder (hq : q = .updateFolder userID idText (some req) steps)
    (hid : UUID.parse idText = some id) {folder : Folder} (hfid : folder.id = id)
    (hs : ∀ p, folder.parentID = some p → s.db.climbsTo p id = false)
    {k : Folder → Prog Stmt Reply}
    (h : ∀ f (t : Store), (∀ p, f.parentID = some p → t.db.climbsTo p f.id = false) →
      Under deps q (k f) t) :
    Under deps q (moveFolder userID id steps folder req.parentID k) s := by
  subst hfid
  match hparentID : req.parentID with
  | none => exact h folder s hs
  | some [] => exact h _ s fun p hp => by cases hp
  | some (c :: text) =>
    refine Early.parseID (P := fun p => Under deps q p s) (under_answer q s) fun p hp => ?_
    refine watched_query (fun _ _ _ => trivial) fun o t ht _ => ?_
    refine Early.foundOr (P := fun p => Under deps q p t) (under_answer q t) fun parent hparent => ?_
    obtain ⟨⟨hknown, -⟩, rfl, rfl⟩ := ht.baseInv.folderKnown hparent
    refine under_isDescendant hq hid (by rw [hparentID]; exact hp) (fun a u ha => ?_) steps _ t hknown id
    refine Early.foundOr (P := fun p => Under deps q p u) (under_answer q u) fun cyclic hcyclic => ?_
    refine Early.failIf (P := fun p => Under deps q p u) (under_answer q u) fun hc => ?_
    refine h _ u fun p' hp' => ?_
    obtain rfl := Option.some.inj hp'
    exact ha (by rw [hcyclic, Bool.not_eq_true _ |>.mp hc])

theorem under_updateFolder (userID : UUID) (idText : GoString) (body : Option FolderRequest) (steps : ℕ) :
    Under deps (.updateFolder userID idText body steps) (updateFolder userID idText body steps .ret) s := by
  have answer : ∀ t, ∀ (status : ℕ) (message : String),
      Under deps (.updateFolder userID idText body steps) (.ret (.error status message)) t :=
    fun _ _ _ => trivial
  refine Early.parseID (P := fun p => Under deps _ p s) (answer s) fun id hid => ?_
  refine watched_query (fun _ _ _ => trivial) fun o t ht _ => ?_
  refine Early.foundOr (P := fun p => Under deps _ p t) (answer t) fun r hr => ?_
  refine Early.decodeBody (P := fun p => Under deps _ p t) (answer t) fun req hbody => ?_
  subst hbody
  obtain ⟨hmem, hrid, -⟩ := Query.folder_ok hr
  -- A folder that is there does not lie below itself.
  have hread : ∀ p, r.parentID = some p → t.db.climbsTo p id = false := fun p hp => by
    refine Bool.eq_false_iff.2 fun hclimbs => ?_
    have hup : t.db.parentOf id = some p := hrid ▸ (DB.parentOf_of_mem hmem).trans hp
    exact (ht.inv id).not_climbs hup ((DB.climbsTo_iff ht.inv).1 hclimbs)
  by_cases hname : req.name = []
  · simp only [hname, ne_eq, not_true_eq_false, if_false]
    exact under_moveFolder rfl hid hrid hread fun f u hf => under_saveFolder rfl hf
  · simp only [ne_eq, hname, not_false_eq_true, if_true]
    refine under_moveFolder rfl hid ?_ ?_ fun f u hf => under_saveFolder rfl hf
    · exact hrid
    · exact hread

theorem folderTree_valid (deps : Deps) :
    (folderTree deps).ValidOver (provenance deps) (folderWatch deps) where
  rely_refl _ := trivial
  rely_trans _ _ := trivial
  start _ _ h _ hq _ := by
    have hdb := (launch_cases hq).1
    exact ⟨fun z => hdb ▸ h z, trivial⟩
  safe {q _ _} _ _ _ _ _ _ := by
    cases q with
    | updateFolder userID id body steps => exact under_updateFolder userID id body steps
    | _ =>
      -- Nobody else saves a folder.
      refine Outline.safeOver_of_pre (fun e _ hknown => ?_) (fun _ => trivial) _ _
      cases e with
      | write w =>
        cases w with
        | saveFolder f =>
          obtain ⟨⟨_, _, _, _, hq⟩, -⟩ := hknown
          cases hq
        | _ => trivial
      | _ => trivial
  call := by
    intro q o α e a s s' hP h hknown hpre _ _ hx _
    refine ⟨?_, trivial⟩
    rw [services_exec] at hx
    cases e with
    | write w =>
      obtain ⟨db', hw, rfl⟩ := exec_write hx
      exact grounded_write hP h hknown hpre hw
    | _ =>
      intro z
      rw [exec_db rfl hx]
      exact h z
  env _ _ h _ hv _ := by
    have hdb := (env_cases hv).1
    exact ⟨fun z => hdb ▸ h z, trivial⟩

end Watched

/-! ## The loops end -/

section Loops

variable {deps : Deps}

/-- The walk of `isDescendant` comes to an answer when no other request runs in between. -/
theorem isDescendant_ends {x : UUID} (h : Grounded s.db.parentOf x) (userID folderID : UUID) :
    ∃ n, ∀ steps, n ≤ steps → ∀ o, ∃ a, ∀ k : Except DbError Bool → Prog Stmt Reply,
      (services deps).alone o (isDescendant userID folderID steps x k) s =
        (services deps).alone o (k a) s := by
  -- One round either answers or goes on at the parent.
  have round : ∀ x steps o, (∃ a, ∀ k : Except DbError Bool → Prog Stmt Reply,
      (services deps).alone o (isDescendant userID folderID (steps + 1) x k) s =
        (services deps).alone o (k a) s) ∨
      ∃ p, s.db.parentOf x = some p ∧ ∀ k : Except DbError Bool → Prog Stmt Reply,
        (services deps).alone o (isDescendant userID folderID (steps + 1) x k) s =
          (services deps).alone o (isDescendant userID folderID steps p k) s := by
    intro x steps o
    simp only [isDescendant]
    by_cases hx : x = folderID
    · simp only [if_pos hx]
      exact Or.inl ⟨.ok true, fun k => rfl⟩
    · simp only [if_neg hx]
      cases ha : (Query.folderParent x userID).run o s.db with
      | error e =>
        cases e with
        | recordNotFound => exact Or.inl ⟨.ok false, fun k => by simp [query, exec, ha]⟩
        | other => exact Or.inl ⟨.error .other, fun k => by simp [query, exec, ha]⟩
      | ok p =>
        cases p with
        | none => exact Or.inl ⟨.ok false, fun k => by simp [query, exec, ha]⟩
        | some p =>
          obtain ⟨f, hf, hid, -, hp⟩ := Query.folderParent_ok ha
          exact Or.inr ⟨p, DB.parentOf_eq_some.2 ⟨f, hf, hid, hp⟩,
            fun k => by simp [query, exec, ha]⟩
  induction h with
  | @root x hx =>
    refine ⟨1, fun steps hsteps o => ?_⟩
    obtain ⟨steps, rfl⟩ := Nat.exists_eq_add_of_le' hsteps
    obtain h | ⟨p, hp, -⟩ := round x steps o
    · exact h
    · cases hx.symm.trans hp
  | @step x y hx _ ih =>
    obtain ⟨n, hn⟩ := ih
    refine ⟨n + 1, fun steps hsteps o => ?_⟩
    obtain ⟨steps, rfl⟩ : ∃ m, steps = m + 1 := Nat.exists_eq_add_of_le' (by omega)
    obtain h | ⟨p, hp, hround⟩ := round x steps o
    · exact h
    · obtain rfl : y = p := Option.some.inj (hx.symm.trans hp)
      obtain ⟨a, ha⟩ := hn steps (by omega) o
      exact ⟨a, fun k => (hround k).trans (ha k)⟩

instance : Finite UUID := Finite.of_injective BitVec.toFin fun _ _ => BitVec.eq_of_toFin_eq

/-- A fold of partial steps that are defined wherever they are made. -/
theorem foldlM_isSome {α β : Type} {P : β → Prop} {f : β → α → Option β} {l : List α}
    (hf : ∀ b, P b → ∀ a ∈ l, ∃ b', f b a = some b' ∧ P b') {b : β} (hb : P b) :
    (l.foldlM f b).isSome = true := by
  induction l generalizing b with
  | nil => rfl
  | cons a l ih =>
    obtain ⟨b', hb', hP⟩ := hf b hb a List.mem_cons_self
    rw [List.foldlM_cons, hb']
    exact ih (fun b hb a ha => hf b hb a (List.mem_cons_of_mem _ ha)) hP

/-- Bounds for the members of a list have a common bound. -/
theorem exists_bound {α : Type} {P : α → ℕ → Prop} {l : List α}
    (h : ∀ a ∈ l, ∃ n, ∀ m, n ≤ m → P a m) : ∃ n, ∀ a ∈ l, ∀ m, n ≤ m → P a m := by
  induction l with
  | nil => exact ⟨0, fun _ ha => absurd ha List.not_mem_nil⟩
  | cons a l ih =>
    obtain ⟨n, hn⟩ := h a List.mem_cons_self
    obtain ⟨n', hn'⟩ := ih fun a ha => h a (List.mem_cons_of_mem _ ha)
    refine ⟨max n n', fun b hb m hm => ?_⟩
    rcases List.mem_cons.1 hb with rfl | hb
    · exact hn m (le_trans (le_max_left _ _) hm)
    · exact hn' b hb m (le_trans (le_max_right _ _) hm)

/-- The recursion of `deleteFolderTree` ends, also on what an earlier part of it has left. -/
theorem deleteFolderTree_ends {db : DB} {userID : UUID} (h : ∀ z, Grounded (db.ownParent userID) z)
    (folderID : UUID) :
    ∃ n, ∀ fuel, n ≤ fuel → ∀ db', db.Shrinks db' →
      (db'.deleteFolderTree fuel userID folderID).isSome = true := by
  induction folderID using (wellFounded_children h).induction with
  | h x ih =>
    have hchild : ∀ c ∈ db.childFolders userID (some x), ∃ n, ∀ fuel, n ≤ fuel → ∀ db', db.Shrinks db' →
        (db'.deleteFolderTree fuel userID c.id).isSome = true := by
      intro c hc
      obtain ⟨hc, hp⟩ := List.mem_filter.1 hc
      simp only [Bool.and_eq_true, decide_eq_true_eq] at hp
      exact ih c.id (DB.ownParent_eq_some.2 ⟨c, hc, rfl, hp⟩)
    obtain ⟨n, hn⟩ := exists_bound hchild
    refine ⟨n + 1, fun fuel hfuel db' hdb' => ?_⟩
    obtain ⟨fuel, rfl⟩ : ∃ m, fuel = m + 1 := Nat.exists_eq_add_of_le' (by omega)
    rw [DB.deleteFolderTree_succ]
    have hfold := foldlM_isSome (P := fun acc : List File × DB => db.Shrinks acc.2)
      (f := fun acc child => (acc.2.deleteFolderTree fuel userID child.id).bind fun r =>
        some (acc.1 ++ r.1, r.2)) (l := db'.childFolders userID (some x)) (b := ([], db')) ?_ hdb'
    · obtain ⟨r, hr⟩ := Option.isSome_iff_exists.1 hfold
      rw [hr]
      rfl
    · intro acc hacc c hc
      obtain ⟨hc, hp⟩ := List.mem_filter.1 hc
      have hmem : c ∈ db.childFolders userID (some x) :=
        List.mem_filter.2 ⟨hdb'.folders c hc, hp⟩
      obtain ⟨r, hr⟩ := Option.isSome_iff_exists.1 (hn c hmem fuel (by omega) acc.2 hacc)
      exact ⟨(acc.1 ++ r.1, r.2), by rw [hr]; rfl, hacc.trans (DB.shrinks_deleteFolderTree hr)⟩

end Loops

/-- Climbing ends from every folder, and the two loops over the folders end. -/
structure FoldersEnd (deps : Deps) (s : Store) : Prop where
  climb : ∀ f ∈ s.db.folders, ∃ n, ascend s.db.parentOf n f.id = none
  isDescendant : ∀ userID folderID current, ∃ n, ∀ steps, n ≤ steps → ∀ o, ∃ a, ∀ k,
    (services deps).alone o (ApiSvc.isDescendant userID folderID steps current k) s =
      (services deps).alone o (k a) s
  deleteFolderTree : ∀ userID folderID, ∃ n, ∀ fuel, n ≤ fuel →
    (s.db.deleteFolderTree fuel userID folderID).isSome = true

/-- **The folder graph has no cycle**: in every run in which nobody else's move undoes what an
`updateFolder` has read or walked before it saves. -/
theorem folders_end (deps : Deps) (users : Table User) {c : Services}
    (h : (services deps).Reaches (folderWatch deps).undisturbed (start (Store.fresh users)) c) :
    FoldersEnd deps c.store := by
  have h₀ : ∀ z, Grounded (Store.fresh users).db.parentOf z := fun z => .root rfl
  obtain ⟨hg, -⟩ := (folderTree_valid deps).good (provenance_valid deps) h (fun _ _ hm => hm)
    (wellFormed_fresh users) h₀ (fun _ _ => trivial) fun _ _ => trivial
  refine ⟨fun f _ => grounded_iff_ascend.1 (hg f.id), fun userID folderID current =>
    isDescendant_ends (hg current) userID folderID, fun userID folderID => ?_⟩
  have hown : ∀ z, Grounded (c.store.db.ownParent userID) z := fun z =>
    (hg z).mono fun a b => DB.parentOf_of_ownParent
  obtain ⟨n, hn⟩ := deleteFolderTree_ends hown folderID
  exact ⟨n, fun fuel hfuel => hn fuel hfuel _ (.refl _)⟩

/-! ### Two folders -/

/-- Alice creates two folders. -/
def createTwoFolders : List (Move Request Oracle EnvMove) :=
  [.start (.createFolder 1 (some ⟨lit "A", none⟩)), .step 0 { uuid := 200 },
    .start (.createFolder 1 (some ⟨lit "B", none⟩)), .step 1 { uuid := 201 }]

/-- Move a folder into another one. -/
def moveInto (id parentID : UUID) : Request :=
  .updateFolder 1 (text id) (some ⟨[], some (text parentID)⟩) 5

/-- The first folder is moved into the second one. -/
theorem folders_end_moveInto :
    ∃ c : Services, (services plainDeps).Reaches (folderWatch plainDeps).undisturbed
      (start (Store.fresh aliceOnly)) c ∧
      (c.store.db.folders.rows.any fun f => f.parentID = some 201) = true ∧
      FoldersEnd plainDeps c.store := by
  obtain ⟨c, hc, hP⟩ := exists_run (folderWatch plainDeps).undisturbed
    (createTwoFolders ++ [.start (moveInto 200 201), .step 2 {}, .step 2 {}, .step 2 {}, .step 2 {}])
    (fun c => c.store.db.folders.rows.any fun f => f.parentID = some 201)
    (by decide)
  exact ⟨c, hc, hP, folders_end plainDeps aliceOnly hc⟩

/-- Each folder is moved into the other; both checks pass before either save. -/
theorem folders_cycle :
    ∃ c : Services, (services plainDeps).Reaches Machine.anySchedule
      (start (Store.fresh aliceOnly)) c ∧ (∀ st ∈ c.trace, succeeds st = true) ∧
      ∃ f ∈ c.store.db.folders, ∀ n, ascend c.store.db.parentOf n f.id ≠ none := by
  obtain ⟨c, hc, hP⟩ := exists_run Machine.anySchedule
    (createTwoFolders ++ [.start (moveInto 200 201), .step 2 {}, .step 2 {}, .step 2 {},
      .start (moveInto 201 200), .step 3 {}, .step 3 {}, .step 3 {}, .step 2 {}, .step 3 {}])
    (fun c => c.trace.all succeeds && c.store.db.folders.rows.any fun f => f.id = 200 &&
      (c.store.db.parentOf 200 = some 201 && c.store.db.parentOf 201 = some 200))
    (by decide)
  simp only [Bool.and_eq_true, List.all_eq_true, List.any_eq_true, decide_eq_true_eq] at hP
  obtain ⟨hs, f, hf, hid, hup, hback⟩ := hP
  refine ⟨c, hc, hs, f, hf, fun n hn => ?_⟩
  rw [hid] at hn
  exact (grounded_iff_ascend.2 ⟨n, hn⟩).not_climbs hup (.head hback .refl)

end Optiflow
