import Optiflow.Proof.Folders

/-!
# Moving a folder

A move is checked with a walk up from the new parent through folders of the user.  On an acyclic graph
the walk ends, with the answer whether it met the folder, and so the moves that are let through are
those that keep the graph acyclic (`move_check_exact`).  Pointers may dangle, or point at folders of
others, which end the walk.
-/

namespace Optiflow

open Interleave ParentGraph ApiSvc

/-- What the walk reads about a folder. -/
theorem Query.eval_folderParent (db : DB) (id userID : UUID) :
    (Query.folderParent id userID).eval db = .error .recordNotFound ∧ db.ownParent userID id = none ∨
      (Query.folderParent id userID).eval db = .ok (db.ownParent userID id) := by
  by_cases hf : ∃ f ∈ db.folders, f.id = id ∧ f.userID = userID
  · obtain ⟨f, hf, rfl, rfl⟩ := hf
    have hfolder : firstOrNotFound db.folders (fun g => g.id = f.id && g.userID = f.userID) = .ok f :=
      Query.eval_folder_of_mem hf
    right
    rw [DB.ownParent_of_mem hf rfl, eval, hfolder]
    rfl
  · left
    constructor
    · rw [eval, firstOrNotFound_eq_error fun f hfm => ?_]
      · rfl
      · simp only [Bool.and_eq_false_iff, decide_eq_false_iff_not, ← not_and_or]
        exact fun h => hf ⟨f, hfm, h⟩
    · rw [Option.eq_none_iff_forall_ne_some]
      intro p hp
      obtain ⟨f, hfm, hid, huser, -⟩ := DB.ownParent_eq_some.1 hp
      exact hf ⟨f, hfm, hid, huser⟩

/-! ## The walk -/

/-- The walk up from `x`, run alone without a failing query, comes to an answer however long it is let
run, and the answer is whether it meets the folder. -/
def WalkDecides (deps : Deps) (s : Store) (userID folderID x : UUID) : Prop :=
  ∃ n b, (b = true ↔ Climbs (s.db.ownParent userID) x folderID) ∧ ∀ steps, n ≤ steps → ∀ o : Oracle,
    o.fails = false → ∀ k : Except DbError Bool → Prog Stmt Reply,
      (services deps).alone o (isDescendant userID folderID steps x k) s =
        (services deps).alone o (k (.ok b)) s

section Walk

variable {deps : Deps} {s : Store} {userID folderID x y : UUID} {o : Oracle} {α : Type}

theorem walkDecides_self : WalkDecides deps s userID x x := by
  refine ⟨1, true, iff_of_true rfl .refl, fun steps hsteps o _ k => ?_⟩
  obtain ⟨steps, rfl⟩ := Nat.exists_eq_add_of_le' hsteps
  rw [isDescendant, if_pos rfl]
  rfl

/-- One round of the walk. -/
theorem isDescendant_round (ho : o.fails = false) (hx : x ≠ folderID) (steps : ℕ)
    (k : Except DbError Bool → Prog Stmt Reply) :
    (services deps).alone o (isDescendant userID folderID (steps + 1) x k) s =
      match s.db.ownParent userID x with
      | none => (services deps).alone o (k (.ok false)) s
      | some p => (services deps).alone o (isDescendant userID folderID steps p k) s := by
  rw [isDescendant, if_neg hx]
  refine (alone_query_eq ho _ _).trans ?_
  obtain ⟨heval, hparent⟩ | heval := Query.eval_folderParent s.db x userID
  · rw [heval, hparent]
    rfl
  · rw [heval]
    cases s.db.ownParent userID x with
    | none => rfl
    | some p => rfl

theorem walkDecides_root (hx : x ≠ folderID) (hroot : s.db.ownParent userID x = none) :
    WalkDecides deps s userID folderID x := by
  refine ⟨1, false, iff_of_false (by simp) fun hclimb => ?_, fun steps hsteps o ho k => ?_⟩
  · obtain he | ⟨y, hy, -⟩ := climbs_cases hclimb
    · exact hx he.symm
    · cases hroot.symm.trans hy
  · obtain ⟨steps, rfl⟩ := Nat.exists_eq_add_of_le' hsteps
    rw [isDescendant_round ho hx, hroot]

theorem walkDecides_step (hx : x ≠ folderID) (hxy : s.db.ownParent userID x = some y)
    (h : WalkDecides deps s userID folderID y) : WalkDecides deps s userID folderID x := by
  obtain ⟨n, b, hb, hn⟩ := h
  refine ⟨n + 1, b, hb.trans ⟨fun hclimb => .head hxy hclimb, fun hclimb => ?_⟩, ?_⟩
  · obtain he | ⟨z, hz, hzf⟩ := climbs_cases hclimb
    · exact absurd he.symm hx
    · obtain rfl : y = z := Option.some.inj (hxy.symm.trans hz)
      exact hzf
  · intro steps hsteps o ho k
    obtain ⟨steps, rfl⟩ : ∃ m, steps = m + 1 := Nat.exists_eq_add_of_le' (by omega)
    rw [isDescendant_round ho hx, hxy]
    exact hn steps (by omega) o ho k

theorem walkDecides (deps : Deps) (h : Grounded (s.db.ownParent userID) x) (folderID : UUID) :
    WalkDecides deps s userID folderID x := by
  induction h with
  | @root x hroot =>
    by_cases hx : x = folderID
    · exact hx ▸ walkDecides_self
    · exact walkDecides_root hx hroot
  | @step x y hxy _ ih =>
    by_cases hx : x = folderID
    · exact hx ▸ walkDecides_self
    · exact walkDecides_step hx hxy ih

end Walk

/-! ## The move -/

section Move

variable {deps : Deps} {s : Store} {userID : UUID} {folder parent : Folder}

/-- The folder as a request with the name moves it; an empty name leaves it its own. -/
def Folder.moved (f : Folder) (name : GoString) (parentID : UUID) : Folder :=
  { (if name ≠ [] then { f with name := name } else f) with parentID := some parentID }

theorem Folder.moved_id (f : Folder) (name : GoString) (parentID : UUID) :
    (f.moved name parentID).id = f.id := by
  unfold moved
  split <;> rfl

theorem Folder.moved_userID (f : Folder) (name : GoString) (parentID : UUID) :
    (f.moved name parentID).userID = f.userID := by
  unfold moved
  split <;> rfl

/-- The checks of a move, with the answer of the walk. -/
theorem moveFolder_alone {o : Oracle} (ho : o.fails = false) {text : GoString} {steps : ℕ} {b : Bool}
    {id : UUID} {k : Folder → Prog Stmt Reply} (hparent : parent ∈ s.db.folders)
    (htext : UUID.parse text = some parent.id)
    (hwalk : ∀ k : Except DbError Bool → Prog Stmt Reply,
      (services deps).alone o (isDescendant parent.userID id steps parent.id k) s =
        (services deps).alone o (k (.ok b)) s) :
    (services deps).alone o (moveFolder parent.userID id steps folder (some text) k) s =
      if b = true then
        some (.error 400 "cannot move a folder into itself or one of its descendants", s)
      else (services deps).alone o (k { folder with parentID := some parent.id }) s := by
  have hne : text ≠ [] := by
    rintro rfl
    cases htext
  obtain ⟨c, text, rfl⟩ := List.exists_cons_of_ne_nil hne
  simp only [moveFolder, resolveOwnedFolder, Code.bind_apply, Code.pure_apply]
  rw [parseID_apply htext]
  refine (alone_query_eq ho _ _).trans ?_
  rw [Query.eval_folder_of_mem hparent]
  refine (hwalk _).trans ?_
  cases b with
  | true => rfl
  | false => rfl

/-- What a move of the folder under the parent comes to. -/
theorem updateFolder_alone {o : Oracle} (ho : o.fails = false) {id text : GoString} (name : GoString)
    {steps : ℕ} {b : Bool} (hfolder : folder ∈ s.db.folders) (hparent : parent ∈ s.db.folders)
    (huser : folder.userID = parent.userID) (hid : UUID.parse id = some folder.id)
    (htext : UUID.parse text = some parent.id)
    (hwalk : ∀ k : Except DbError Bool → Prog Stmt Reply,
      (services deps).alone o (isDescendant parent.userID folder.id steps parent.id k) s =
        (services deps).alone o (k (.ok b)) s) :
    (services deps).alone o
        (updateFolder parent.userID id (some ⟨name, some text⟩) steps .ret) s =
      if b = true then
        some (.error 400 "cannot move a folder into itself or one of its descendants", s)
      else
        some (.folder 200 (folder.moved name parent.id),
          { s with db.folders := s.db.folders.save (folder.moved name parent.id) }) := by
  simp only [updateFolder, resolveOwnedFolder, Code.bind_apply, Code.pure_apply]
  rw [parseID_apply hid, ← huser]
  refine (alone_query_eq ho _ _).trans ?_
  rw [Query.eval_folder_of_mem hfolder, huser]
  refine (moveFolder_alone ho hparent htext hwalk).trans ?_
  split
  · rfl
  · exact alone_write_eq ho _ _

end Move

/-- **The check of a move is exact.**  On an acyclic folder graph the walk ends without an error, with
the answer whether the folder is met from the new parent.  So a move under a folder of the user is
accepted if and only if the graph it makes is acyclic, and then it makes that graph. -/
theorem move_check_exact (deps : Deps) {s : Store} {userID : UUID}
    (h : Acyclic (s.db.ownParent userID)) {folder : Folder} (hfolder : folder ∈ s.db.folders)
    (huser : folder.userID = userID) (c : UUID) :
    WalkDecides deps s userID folder.id c ∧
    ∀ parent ∈ s.db.folders, parent.id = c → parent.userID = userID →
      ∃ n, ∀ steps, n ≤ steps → ∀ o : Oracle, o.fails = false → ∀ id text name : GoString,
        UUID.parse id = some folder.id → UUID.parse text = some c →
        ∃ r t, (services deps).alone o
            ((services deps).handler (.updateFolder userID id (some ⟨name, some text⟩) steps)) s =
              some (r, t) ∧
          ((∃ moved, r = .folder 200 moved ∧ moved.id = folder.id ∧ moved.parentID = some c ∧
              t.db.ownParent userID = Function.update (s.db.ownParent userID) folder.id (some c)) ↔
            Acyclic (Function.update (s.db.ownParent userID) folder.id (some c))) ∧
          (¬Acyclic (Function.update (s.db.ownParent userID) folder.id (some c)) →
            r = .error 400 "cannot move a folder into itself or one of its descendants" ∧ t = s) := by
  refine ⟨walkDecides deps (h.grounded c) folder.id, ?_⟩
  rintro parent hparent rfl rfl
  obtain ⟨n, b, hb, hn⟩ := walkDecides deps (h.grounded parent.id) folder.id
  refine ⟨n, fun steps hsteps o ho id text name hid htext => ?_⟩
  have halone := updateFolder_alone ho name hfolder hparent huser hid htext fun k =>
    hn steps hsteps o ho k
  have hacyclic : Acyclic (Function.update (s.db.ownParent parent.userID) folder.id (some parent.id)) ↔
      ¬b = true := by rw [acyclic_update_iff h, hb]
  rw [hacyclic]
  cases hcyclic : b with
  | true =>
    rw [hcyclic, if_pos rfl] at halone
    exact ⟨_, _, halone, iff_of_false (by simp) (by simp), fun _ => ⟨rfl, rfl⟩⟩
  | false =>
    rw [hcyclic, if_neg (by simp)] at halone
    refine ⟨_, _, halone, iff_of_true ?_ (by simp), by simp⟩
    refine ⟨_, rfl, folder.moved_id _ _, rfl, ?_⟩
    rw [← folder.moved_id name parent.id]
    exact DB.ownParent_save ((folder.moved_userID _ _).trans huser)

/-! ### A folder in a folder -/

def outer : Folder := ⟨200, lit "A", 1, some 999⟩

def inner : Folder := ⟨201, lit "B", 1, some 200⟩

/-- Alice has a folder in a folder, whose own parent is missing. -/
def nestedStore : Store :=
  { Store.empty with
    db :=
      { users := aliceOnly
        folders := (Table.empty.insert outer (by simp [Table.Used])).insert inner (by decide)
        files := .empty
        shares := .empty } }

theorem nestedStore_acyclic : Acyclic (nestedStore.db.ownParent 1) := by
  refine acyclic_of_grounded fun x => ?_
  have hmissing : nestedStore.db.ownParent 1 999 = none := by decide
  have houter : nestedStore.db.ownParent 1 200 = some 999 := by decide
  cases hx : nestedStore.db.ownParent 1 x with
  | none => exact .root hx
  | some p =>
    obtain ⟨f, hf, -, -, hp⟩ := DB.ownParent_eq_some.1 hx
    have hmem : f ∈ [outer, inner] := hf
    rcases List.mem_cons.1 hmem with rfl | hmem
    · obtain rfl : 999 = p := Option.some.inj hp
      exact .step hx (.root hmissing)
    · obtain rfl := List.mem_singleton.1 hmem
      obtain rfl : 200 = p := Option.some.inj hp
      exact .step hx (.step houter (.root hmissing))

/-- The outer folder does not go into the inner one. -/
theorem move_check_exact_nested :
    ∃ n r t, (services plainDeps).alone {} ((services plainDeps).handler
        (.updateFolder 1 (text 200) (some ⟨[], some (text 201)⟩) n)) nestedStore = some (r, t) ∧
      r = .error 400 "cannot move a folder into itself or one of its descendants" ∧
      t = nestedStore := by
  have hcycle : ¬Acyclic (Function.update (nestedStore.db.ownParent 1) 200 (some 201)) :=
    fun h => h 200 (.head (b := 201) (by decide) (.single (by decide)))
  obtain ⟨-, hmove⟩ := move_check_exact plainDeps nestedStore_acyclic
    (show outer ∈ nestedStore.db.folders from List.mem_cons_self) rfl 201
  obtain ⟨n, hn⟩ := hmove inner (List.mem_cons_of_mem _ List.mem_cons_self) rfl rfl
  obtain ⟨r, t, halone, -, hreject⟩ := hn n le_rfl {} rfl (text 200) (text 201) []
    (UUID.parse_string _) (UUID.parse_string _)
  exact ⟨n, r, t, halone, hreject hcycle⟩

end Optiflow
